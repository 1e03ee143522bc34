import DugOS.Fs.Effects

namespace DugOS.Fs

open Data

/-! How the chains of the used entries share the allocation table.

`Layout` assigns to every used entry the chain it owns. The lemmas of this
module say what the assignment becomes when a chain is released, stored or
given up half way; every invariant of the table is derived from them.
-/

structure Owned (fat : Fat) (entry : FileEntry) (chain : List BlockIndex) : Prop where
  linked : FatChain fat entry.firstBlock chain
  length : chain.length = blocksFor entry.size
  used : ∀ block ∈ chain, fat block ≠ fatFree

structure Layout (fat : Fat) (files : FileIndex → FileEntry) (chain : FileIndex → List BlockIndex) :
    Prop where
  owned : ∀ i, (files i).used = true → Owned fat (files i) (chain i)
  separate : ∀ i j, (files i).used = true → (files j).used = true → i ≠ j →
    (chain i).Disjoint (chain j)

/-- The bytes of a file: `size` of them, read along its chain. -/
def content (disk : Disk) (entry : FileEntry) : List UInt8 :=
  readChain disk entry.firstBlock entry.size

variable {fat changed : Fat} {disk after : Disk} {files : FileIndex → FileEntry} {entry fresh : FileEntry}
  {chain : FileIndex → List BlockIndex} {cells new : List BlockIndex} {idx i : FileIndex}
  {data : List UInt8} {first : Nat}

section Entry

theorem Owned.frame (owned : Owned fat entry cells) (same : ∀ block ∈ cells, changed block = fat block) :
    Owned changed entry cells := by
  refine ⟨owned.linked.frame same, owned.length, ?_⟩
  intro block member
  rw [same block member]
  exact owned.used block member

theorem Owned.content_frame (owned : Owned disk.fat entry cells)
    (sameFat : ∀ block ∈ cells, after.fat block = disk.fat block)
    (sameBlocks : ∀ block ∈ cells, after.blocks block = disk.blocks block) :
    content after entry = content disk entry :=
  readChain_congr owned.linked sameFat sameBlocks

theorem Owned.content_length (owned : Owned disk.fat entry cells) :
    (content disk entry).length = entry.size :=
  readChain_length owned.linked owned.length

theorem Owned.empty_iff (owned : Owned fat entry cells) : entry.firstBlock = fatEnd ↔ entry.size = 0 := by
  have length := owned.length
  have linked := owned.linked
  cases cells with
  | nil => exact ⟨fun _ => blocksFor_eq_zero.mp length.symm, fun _ => linked⟩
  | cons head cells =>
      constructor
      · intro ended
        exact absurd (linked.1.symm.trans ended) (val_ne_fatEnd head)
      · intro empty
        simp [empty] at length

/-- A chain visits no block twice, so that no file exceeds the whole disk. -/
theorem Owned.size_le (owned : Owned fat entry cells) : entry.size ≤ tmpSize := by
  have bounded : cells.length ≤ fsNBlocks := by
    rw [← List.toFinset_card_of_nodup owned.linked.nodup]
    simpa using Finset.card_le_univ cells.toFinset
  rw [owned.length] at bounded
  exact blocksFor_le_iff.mp bounded

end Entry

section Changes

theorem Layout.released_other (layout : Layout fat files chain) (used : (files idx).used = true)
    {block : BlockIndex} (outside : block ∉ chain idx) :
    freeChain fat (files idx).firstBlock block = fat block := by
  have owned := layout.owned idx used
  rw [freeChain_eq owned.linked owned.used]
  split
  · rfl
  · simp [outside]

/-- Replacing an entry does not matter to the chains of the others. -/
theorem Layout.replace (layout : Layout fat files chain)
    (same : ∀ i, i ≠ idx → (files i).used = true → ∀ block ∈ chain i, changed block = fat block)
    (owned : fresh.used = true → Owned changed fresh new)
    (apart : fresh.used = true → ∀ i, i ≠ idx → (files i).used = true → (chain i).Disjoint new) :
    Layout changed (Function.update files idx fresh) (Function.update chain idx new) := by
  constructor
  case owned =>
    intro i used
    by_cases isIdx : i = idx
    · subst isIdx
      simp only [Function.update_self] at used ⊢
      exact owned used
    · simp only [Function.update_of_ne isIdx] at used ⊢
      exact (layout.owned i used).frame (same i isIdx used)
  case separate =>
    intro i j usedI usedJ different
    by_cases isI : i = idx
    · subst isI
      simp only [Function.update_self, Function.update_of_ne (Ne.symm different)] at usedI usedJ ⊢
      exact (apart usedI j (Ne.symm different) usedJ).symm
    · by_cases isJ : j = idx
      · subst isJ
        simp only [Function.update_self, Function.update_of_ne different] at usedI usedJ ⊢
        exact apart usedJ i different usedI
      · simp only [Function.update_of_ne isI, Function.update_of_ne isJ] at usedI usedJ ⊢
        exact layout.separate i j usedI usedJ different

theorem Layout.release (layout : Layout fat files chain) (used : (files idx).used = true)
    (vacated : fresh.used = true → fresh.firstBlock = fatEnd ∧ fresh.size = 0) :
    Layout (freeChain fat (files idx).firstBlock) (Function.update files idx fresh)
      (Function.update chain idx []) := by
  apply layout.replace
  · intro i different usedI block member
    exact layout.released_other used
      (layout.separate i idx usedI used different member)
  · intro usedFresh
    obtain ⟨ended, empty⟩ := vacated usedFresh
    exact ⟨ended, by simp [empty], by simp⟩
  · intro _ i _ _
    exact List.disjoint_nil_right _

theorem Layout.store (idx : FileIndex) (layout : Layout disk.fat files chain)
    (stored : Stored disk data after first new) (head : fresh.firstBlock = first)
    (size : fresh.size = data.length) :
    Layout after.fat (Function.update files idx fresh) (Function.update chain idx new) := by
  have outside : ∀ i, (files i).used = true → ∀ block ∈ chain i, block ∉ new := by
    intro i used block member taken
    exact (layout.owned i used).used block member (stored.wasFree block taken)
  apply layout.replace
  · intro i _ used block member
    exact stored.sameFat block (outside i used block member)
  · intro _
    refine ⟨?_, ?_, stored.nowUsed⟩
    · rw [head]
      exact stored.linked
    · rw [size]
      exact stored.length
  · intro _ i _ used block member taken
    exact outside i used block member taken

theorem Layout.exhaust (layout : Layout disk.fat files chain) (exhausted : Exhausted disk data after) :
    Layout after.fat files chain := by
  refine ⟨?_, layout.separate⟩
  intro i used
  have owned := layout.owned i used
  exact owned.frame (fun block member => exhausted.sameFat block (owned.used block member))

/-- Giving up a slot, or changing an entry beside its chain. -/
theorem Layout.setEntry (layout : Layout fat files chain)
    (same : fresh.used = true → (files idx).used = true ∧ fresh.firstBlock = (files idx).firstBlock ∧
      fresh.size = (files idx).size) :
    Layout fat (Function.update files idx fresh) chain := by
  have kept : Layout fat (Function.update files idx fresh) (Function.update chain idx (chain idx)) := by
    apply layout.replace (fun _ _ _ _ _ => rfl)
    · intro used
      obtain ⟨usedIdx, sameHead, sameSize⟩ := same used
      have owned := layout.owned idx usedIdx
      exact ⟨sameHead ▸ owned.linked, sameSize ▸ owned.length, owned.used⟩
    · intro used i different usedI
      exact layout.separate i idx usedI (same used).1 different
  rwa [Function.update_eq_self] at kept

end Changes

section Contents

theorem Layout.content_release (layout : Layout disk.fat files chain) (used : (files idx).used = true)
    (different : i ≠ idx) (usedI : (files i).used = true) :
    content { disk with fat := freeChain disk.fat (files idx).firstBlock } (files i) =
      content disk (files i) := by
  refine (layout.owned i usedI).content_frame ?_ (fun _ _ => rfl)
  intro block member
  exact layout.released_other used (layout.separate i idx usedI used different member)

theorem Layout.content_store (layout : Layout disk.fat files chain)
    (stored : Stored disk data after first new) (usedI : (files i).used = true) :
    content after (files i) = content disk (files i) := by
  have owned := layout.owned i usedI
  have outside : ∀ block ∈ chain i, block ∉ new := fun block member taken =>
    owned.used block member (stored.wasFree block taken)
  exact owned.content_frame (fun block member => stored.sameFat block (outside block member))
    (fun block member => stored.sameBlocks block (outside block member))

theorem Layout.content_exhaust (layout : Layout disk.fat files chain)
    (exhausted : Exhausted disk data after) (usedI : (files i).used = true) :
    content after (files i) = content disk (files i) := by
  have owned := layout.owned i usedI
  exact owned.content_frame (fun block member => exhausted.sameFat block (owned.used block member))
    (fun block member => exhausted.sameBlocks block (owned.used block member))

theorem Stored.content_eq (stored : Stored disk data after first new) (head : fresh.firstBlock = first)
    (size : fresh.size = data.length) : content after fresh = data := by
  rw [content, head, size]
  exact stored.contents

end Contents

end DugOS.Fs
