import Mathlib.Algebra.BigOperators.Group.Finset.Basic
import DugOS.Fs.Invariant
import DugOS.Fs.Names

namespace DugOS.Fs

open Data

/-! Which blocks stay taken although no file owns them. `free_chain` takes the
number of block 0 for the free marker, so that a chain that starts there is
never released. -/

/-- Every block in use belongs to a used entry. -/
def Covered (fat : Fat) (files : FileIndex → FileEntry) (chain : FileIndex → List BlockIndex) : Prop :=
  ∀ block, fat block ≠ fatFree → ∃ i, (files i).used = true ∧ block ∈ chain i

def NoLeak (fs : FileSystem) : Prop :=
  ∀ block, fs.fat block ≠ fatFree → ∃ i cells, (fs.files i).used = true ∧
    FatChain fs.fat (fs.files i).firstBlock cells ∧ block ∈ cells

variable {fs after boot : FileSystem} {fat : Fat} {disk changed : Disk} {files : FileIndex → FileEntry}
  {fresh : FileEntry} {chain : FileIndex → List BlockIndex} {new : List BlockIndex} {idx : FileIndex}
  {data keys : List UInt8} {first : Nat} {event : FsEvent}
  {trace : List (Transition FileSystem FsEvent)}

theorem Layout.covered_iff (layout : Layout fs.fat fs.files chain) :
    Covered fs.fat fs.files chain ↔ NoLeak fs := by
  constructor
  · intro covered block used
    obtain ⟨i, usedI, member⟩ := covered block used
    exact ⟨i, chain i, usedI, (layout.owned i usedI).linked, member⟩
  · intro noLeak block used
    obtain ⟨i, cells, usedI, linked, member⟩ := noLeak block used
    rw [linked.unique (layout.owned i usedI).linked] at member
    exact ⟨i, usedI, member⟩

section Steps

/-- Releasing a chain loses its blocks exactly when it starts at block 0. -/
theorem Layout.covered_release (layout : Layout fat files chain) (used : (files idx).used = true) :
    Covered (freeChain fat (files idx).firstBlock) (Function.update files idx fresh)
        (Function.update chain idx []) ↔
      Covered fat files chain ∧ (files idx).firstBlock ≠ 0 := by
  have owned := layout.owned idx used
  constructor
  · intro covered
    have elsewhere : ∀ block, freeChain fat (files idx).firstBlock block ≠ fatFree →
        ∃ i, i ≠ idx ∧ (files i).used = true ∧ block ∈ chain i := by
      intro block taken
      obtain ⟨i, usedI, member⟩ := covered block taken
      by_cases isIdx : i = idx
      · simp [isIdx] at member
      · simp only [Function.update_of_ne isIdx] at usedI member
        exact ⟨i, isIdx, usedI, member⟩
    refine ⟨?_, ?_⟩
    · intro block taken
      by_cases own : block ∈ chain idx
      · exact ⟨idx, used, own⟩
      · obtain ⟨i, _, usedI, member⟩ := elsewhere block (by rwa [layout.released_other used own])
        exact ⟨i, usedI, member⟩
    · intro zero
      have linked := owned.linked
      cases cells : chain idx with
      | nil =>
          rw [cells] at linked
          exact absurd (zero.symm.trans linked) (by decide)
      | cons head rest =>
          rw [cells] at linked
          have headIn : head ∈ chain idx := by simp [cells]
          have kept : freeChain fat (files idx).firstBlock head ≠ fatFree := by
            rw [freeChain_stop (by simp [zero])]
            exact owned.used head headIn
          obtain ⟨i, different, usedI, member⟩ := elsewhere head kept
          exact layout.separate i idx usedI used different member headIn
  · intro given block taken
    obtain ⟨covered, notZero⟩ := given
    rw [freeChain_eq owned.linked owned.used, if_neg notZero] at taken
    have outside : block ∉ chain idx := by
      intro member
      simp [member] at taken
    obtain ⟨i, usedI, member⟩ := covered block (by simpa [outside] using taken)
    have different : i ≠ idx := by
      intro same
      subst same
      exact outside member
    exact ⟨i, by simpa [different] using usedI, by simpa [different] using member⟩

theorem Layout.covered_store (idx : FileIndex) (fresh : FileEntry) (layout : Layout disk.fat files chain)
    (vacant : (files idx).used = true → chain idx = []) (stored : Stored disk data changed first new)
    (used : fresh.used = true) :
    Covered changed.fat (Function.update files idx fresh) (Function.update chain idx new) ↔
      Covered disk.fat files chain := by
  have outside : ∀ i, (files i).used = true → ∀ block ∈ chain i, block ∉ new := by
    intro i usedI block member taken
    exact (layout.owned i usedI).used block member (stored.wasFree block taken)
  constructor
  · intro covered block taken
    have notNew : block ∉ new := fun member => taken (stored.wasFree block member)
    obtain ⟨i, usedI, member⟩ := covered block (by rwa [stored.sameFat block notNew])
    by_cases isIdx : i = idx
    · subst isIdx
      simp [notNew] at member
    · simp only [Function.update_of_ne isIdx] at usedI member
      exact ⟨i, usedI, member⟩
  · intro covered block taken
    by_cases member : block ∈ new
    · exact ⟨idx, by simpa using used, by simpa using member⟩
    · rw [stored.sameFat block member] at taken
      obtain ⟨i, usedI, inChain⟩ := covered block taken
      have different : i ≠ idx := by
        intro same
        subst same
        simp [vacant usedI] at inChain
      exact ⟨i, by simpa [different] using usedI, by simpa [different] using inChain⟩

end Steps

section Commands

theorem noLeak_congr (disk : after.toDisk = fs.toDisk)
    (same : ∀ i, (after.files i).used = (fs.files i).used ∧
      (after.files i).firstBlock = (fs.files i).firstBlock) : NoLeak after ↔ NoLeak fs := by
  simp only [NoLeak, disk, same]

theorem Layout.noLeak_release (layout : Layout fs.fat fs.files chain) (used : (fs.files idx).used = true)
    (disk : after.toDisk = released fs idx) (files : after.files = Function.update fs.files idx fresh)
    (unused : fresh.used = false) :
    NoLeak after ↔ NoLeak fs ∧ (fs.files idx).firstBlock ≠ 0 := by
  have next : Layout after.fat after.files (Function.update chain idx []) := by
    rw [files, disk]
    exact layout.release used (by simp [unused])
  rw [← next.covered_iff, files, disk, ← layout.covered_iff]
  exact layout.covered_release used

theorem Layout.noLeak_rewrite (layout : Layout fs.fat fs.files chain) (used : (fs.files idx).used = true)
    (stored : Stored (released fs idx) data after.toDisk first new)
    (files : after.files = Function.update fs.files idx fresh) (usedFresh : fresh.used = true)
    (head : fresh.firstBlock = first) (size : fresh.size = data.length) :
    NoLeak after ↔ NoLeak fs ∧ (fs.files idx).firstBlock ≠ 0 := by
  have next := layout.rewrite used stored head size
  rw [← files] at next
  have vacated := layout.vacate used
  have covered := vacated.covered_store idx fresh (fun _ => Function.update_self ..) stored usedFresh
  rw [Function.update_idem, Function.update_idem, ← files] at covered
  rw [← next.covered_iff, covered, ← layout.covered_iff]
  exact layout.covered_release used

theorem Layout.noLeak_store (layout : Layout fs.fat fs.files chain)
    (slot : findFreeSlot fs.files = some idx) (stored : Stored fs.toDisk data after.toDisk first new)
    (files : after.files = Function.update fs.files idx fresh) (usedFresh : fresh.used = true)
    (head : fresh.firstBlock = first) (size : fresh.size = data.length) :
    NoLeak after ↔ NoLeak fs := by
  have next := layout.store idx stored head size
  have vacant : (fs.files idx).used = true → chain idx = [] := by
    simp [findFreeSlot_some slot]
  have covered := layout.covered_store idx fresh vacant stored usedFresh
  rw [← files] at next covered
  rw [← next.covered_iff, covered, layout.covered_iff]

end Commands

/-- A step does not release a chain that starts at block 0. -/
def KeepsBlockZero (step : Transition FileSystem FsEvent) : Prop :=
  ∀ idx, step.label.op.Releases step.before step.label.keys idx → (step.before.files idx).firstBlock ≠ 0

theorem Effect.noLeak_iff {op : FsOp} {report : Report} (effect : Effect fs keys op report after)
    (layout : Layout fs.fat fs.files chain) (notFull : report ≠ .diskFull) :
    NoLeak after ↔ NoLeak fs ∧ ∀ idx, op.Releases fs keys idx → (fs.files idx).firstBlock ≠ 0 := by
  cases effect with
  | refused idle _ _ disk files =>
      have none : ∀ idx, ¬ op.Releases fs keys idx := fun idx releases => idle releases.proceeds
      rw [noLeak_congr disk (by simp [files])]
      simp [none]
  | printed _ _ disk files =>
      rw [noLeak_congr disk (by simp [files])]
      simp [FsOp.Releases]
  | overwritten nonempty found collected stored files =>
      have used := (findFile_some found).1
      rw [layout.noLeak_rewrite used stored files used rfl (collected_length collected (Nat.zero_le _))]
      simp [FsOp.Releases, nonempty, found]
  | overwriteFailed => exact absurd rfl notFull
  | created _ absent slot collected stored files =>
      rw [layout.noLeak_store slot stored files rfl rfl (collected_length collected (Nat.zero_le _))]
      simp [FsOp.Releases, absent]
  | createFailed => exact absurd rfl notFull
  | appended nonempty found copied collected stored files =>
      have used := (findFile_some found).1
      rw [layout.noLeak_rewrite used stored files used rfl
        (collected_length collected (layout.owned _ used).size_le)]
      simp [FsOp.Releases, nonempty, found]
  | appendFailed => exact absurd rfl notFull
  | deleted nonempty found answer agreed disk files =>
      rw [layout.noLeak_release (findFile_some found).1 disk files rfl]
      simp [FsOp.Releases, nonempty, found, answer, agreed]
  | renamed _ found fresh disk files =>
      rw [noLeak_congr disk (fun i => by rw [files, Function.update_apply]; split <;> simp_all)]
      simp [FsOp.Releases]
  | copied _ found fresh slot copied stored files =>
      have owned := layout.owned _ (findFile_some found).1
      rw [layout.noLeak_store slot stored files rfl rfl (owned.copied_length copied)]
      simp [FsOp.Releases]
  | copyFailed => exact absurd rfl notFull

section Accounting

def ownedCount (files : FileIndex → FileEntry) : Nat :=
  ∑ i with (files i).used = true, blocksFor (files i).size

/-- The blocks on the chains of the used entries. -/
def ownedBlocks (files : FileIndex → FileEntry) (chain : FileIndex → List BlockIndex) : Finset BlockIndex :=
  ({i | (files i).used = true} : Finset FileIndex).biUnion (fun i => (chain i).toFinset)

theorem Layout.ownedBlocks_card (layout : Layout fat files chain) :
    (ownedBlocks files chain).card = ownedCount files := by
  rw [ownedBlocks, Finset.card_biUnion]
  · apply Finset.sum_congr rfl
    intro i member
    have owned := layout.owned i (by simpa using member)
    rw [List.toFinset_card_of_nodup owned.linked.nodup, owned.length]
  · intro i usedI j usedJ different
    apply List.disjoint_toFinset_iff_disjoint.mpr
    exact layout.separate i j (by simpa using usedI) (by simpa using usedJ) different

theorem Layout.ownedBlocks_subset (layout : Layout fat files chain) :
    ownedBlocks files chain ⊆ usedBlocks fat := by
  intro block member
  simp only [ownedBlocks, Finset.mem_biUnion, Finset.mem_filter, Finset.mem_univ, true_and,
    List.mem_toFinset] at member
  obtain ⟨i, used, inChain⟩ := member
  exact mem_usedBlocks.mpr ((layout.owned i used).used block inChain)

theorem freeBlocks_add_usedBlocks (fat : Fat) : (freeBlocks fat).card + (usedBlocks fat).card = fsNBlocks := by
  have total := Finset.card_filter_add_card_filter_not (s := Finset.univ) (fun block => fat block = fatFree)
  simpa [freeBlocks, usedBlocks] using total

/-- Counting finds every leak. -/
theorem Layout.noLeak_iff_count (layout : Layout fs.fat fs.files chain) :
    NoLeak fs ↔ (freeBlocks fs.fat).card = fsNBlocks - ownedCount fs.files := by
  have subset := layout.ownedBlocks_subset
  have count := layout.ownedBlocks_card
  have total := freeBlocks_add_usedBlocks fs.fat
  have bounded := Finset.card_le_card subset
  have covered : NoLeak fs ↔ usedBlocks fs.fat ⊆ ownedBlocks fs.files chain := by
    rw [← layout.covered_iff]
    simp [Covered, Finset.subset_iff, ownedBlocks]
  rw [covered]
  constructor
  · intro reverse
    have same := congrArg Finset.card (subset.antisymm reverse)
    omega
  · intro counted
    exact (Finset.eq_of_subset_of_card_le subset (by omega)).ge

end Accounting

/-- Without a disk full report, blocks are lost exactly by the steps that
release a chain starting at block 0. -/
theorem noLeak_of_run (run : Run FsStep (fsInit boot) trace fs)
    (notFull : ∀ step ∈ trace, step.label.report ≠ .diskFull) :
    (NoLeak fs ↔ ∀ step ∈ trace, KeepsBlockZero step) ∧
      ((freeBlocks fs.fat).card = fsNBlocks - ownedCount fs.files ↔ ∀ step ∈ trace, KeepsBlockZero step) ∧
      ((∀ i, (fs.files i).used = false) →
        ((∀ block, fs.fat block = fatFree) ↔ ∀ step ∈ trace, KeepsBlockZero step)) := by
  have initial : NoLeak (fsInit boot) := by
    intro block taken
    simp [fsInit] at taken
  have exactly : Valid fs ∧
      (NoLeak fs ↔ NoLeak (fsInit boot) ∧ ∀ step ∈ trace, KeepsBlockZero step) := by
    refine run.holds_iff (valid_fsInit boot) (fun _ _ _ valid step => step.valid valid) ?_ notFull
    intro before label after valid step permitted
    obtain ⟨chain, layout⟩ := valid
    exact step.effect.noLeak_iff layout permitted
  obtain ⟨⟨chain, layout⟩, exactly⟩ := exactly
  have noLeak : NoLeak fs ↔ ∀ step ∈ trace, KeepsBlockZero step := by simpa [initial] using exactly
  refine ⟨noLeak, ?_, ?_⟩
  · rw [← layout.noLeak_iff_count, noLeak]
  · intro unused
    rw [← noLeak, NoLeak]
    refine forall_congr' fun block => ?_
    simp [unused]

def sampleWrite : FsEvent :=
  ⟨.write sampleName rootDir, typedFile [[120]], .done⟩

def sampleDelete : FsEvent :=
  ⟨.delete sampleName rootDir, [121, newline], .done⟩

/-- The first file after boot, of two bytes, in slot 0. -/
theorem sample_written : ∃ written, FsStep (fsInit bss) sampleWrite written ∧
    Created (fsInit bss) sampleName rootDir 0 2 written :=
  FsStep.creates [[120]] (by decide) (findFile_fsInit bss sampleName rootDir) (findFreeSlot_fsInit bss)
    (by decide) (by decide) (by simpa using sample_verbatim) (by decide) (by rw [freeBlocks_fsInit]; decide)

/-- It starts at block 0. -/
theorem Created.block_zero {written : FileSystem} (created : Created (fsInit bss) sampleName rootDir 0 2 written)
    (write : FsStep (fsInit bss) sampleWrite written) : (written.files 0).firstBlock = 0 ∧ written.fat 0 ≠ fatFree := by
  obtain ⟨chain, layout⟩ := FsStep.valid write (valid_fsInit bss)
  have headZero : (written.files 0).firstBlock = 0 := by
    obtain ⟨block, alloc, head⟩ := created.firstFit (by decide)
    cases alloc.symm.trans (show allocBlock (fsInit bss).fat = some 0 from rfl)
    exact head
  refine ⟨headZero, ?_⟩
  have owned := layout.owned 0 (findFile_some created.found).1
  have linked := owned.linked
  cases cells : chain 0 with
  | nil => exact absurd (headZero.symm.trans (cells ▸ linked)) (by decide)
  | cons head rest =>
      rw [cells] at linked
      have isZero : head = 0 := Fin.ext (linked.1.symm.trans headZero)
      exact isZero ▸ owned.used head (by simp [cells])

/-- Deleting it leaves that block taken although no file is left. -/
theorem deleted_block_leaks : ∃ trace fs, Run FsStep (fsInit bss) trace fs ∧
    trace.map Transition.label = [sampleWrite, sampleDelete] ∧
    (∀ i, (fs.files i).used = false) ∧ fs.fat 0 ≠ fatFree ∧ ¬ NoLeak fs := by
  obtain ⟨written, write, created⟩ := sample_written
  have found := created.found
  obtain ⟨headZero, taken⟩ := created.block_zero write
  obtain ⟨typed, answer, agreed⟩ := readline_yes
  obtain ⟨deleted, delete, gone⟩ := fsDelete_deletes (show sampleName.chars ≠ [] by decide) found answer agreed
  have step : FsStep written sampleDelete deleted.fs := ⟨deleted, delete, rfl, gone⟩
  have effect := step.effect
  cases effect with
  | refused _ failed => exact absurd rfl failed
  | deleted _ foundAgain _ _ disk files =>
      cases found.symm.trans foundAgain
      have unused : ∀ i, (deleted.fs.files i).used = false := by
        intro i
        rw [files]
        by_cases isZero : i = 0
        · simp [isZero]
        · simp [isZero, created.others, fsInit]
      have kept : deleted.fs.fat 0 ≠ fatFree := by
        rw [disk]
        simpa [released, headZero, freeChain_stop] using taken
      refine ⟨_, deleted.fs, .next (.next .done write) step, rfl, unused, kept, ?_⟩
      intro noLeak
      obtain ⟨i, _, used, _⟩ := noLeak 0 kept
      simp [unused] at used

theorem Created.alone {total : Nat} {other : CString} {name dir : CString} (created : Created (fsInit bss) name dir 0 total fs)
    (different : other.chars ≠ name.chars) :
    findFile fs.files other dir = none ∧ findFreeSlot fs.files = some 1 := by
  obtain ⟨used, sameName, _⟩ := findFile_some created.found
  constructor
  · apply List.find?_eq_none.mpr
    intro i _ named
    by_cases isZero : i = 0
    · subst isZero
      exact different ((FileEntry.named_iff.mp named).2.1.symm.trans sameName)
    · simp [FileEntry.named, created.others i isZero, fsInit] at named
  · simp [findFreeSlot, List.finRange_succ, used, created.others 1 (by decide), fsInit]

/-- A run right after boot that writes a file of two bytes and another of the given
lines, which does not start at block 0. -/
structure TwoFiles (lines : List (List UInt8)) (trace : List (Transition FileSystem FsEvent)) (fs : FileSystem) :
    Prop where
  run : Run FsStep (fsInit bss) trace fs
  labels : trace.map Transition.label = [sampleWrite, ⟨.write otherName rootDir, typedFile lines, .done⟩]
  found : findFile fs.files otherName rootDir = some 1
  size : (fs.files 1).size = (typedText lines).length
  usedFirst : (fs.files 0).used = true
  sizeFirst : (fs.files 0).size = 2
  elsewhere : typedText lines ≠ [] → (fs.files 1).firstBlock ≠ 0
  keeps : ∀ step ∈ trace, KeepsBlockZero step

theorem two_files {lines : List (List UInt8)} (verbatim : ∀ text ∈ lines, Verbatim text)
    (small : (typedText lines).length ≤ fsBlockSize) : ∃ trace fs, TwoFiles lines trace fs := by
  obtain ⟨first, write, created⟩ := sample_written
  have used := (findFile_some created.found).1
  obtain ⟨absent, slot⟩ := created.alone (show otherName.chars ≠ sampleName.chars by decide)
  have few : blocksFor (typedText lines).length ≤ 1 := blocksFor_le_iff.mpr (by simpa using small)
  have enough : blocksFor (typedText lines).length ≤ (freeBlocks first.fat).card := by
    have free := created.free
    have total : (freeBlocks (fsInit bss).fat).card = 8 := by rw [freeBlocks_fsInit, Finset.card_fin]
    have one : blocksFor 2 = 1 := by decide
    omega
  obtain ⟨second, writeOther, createdOther⟩ := FsStep.creates lines (by decide) absent slot (by decide)
    (by decide) verbatim (le_trans small (by decide)) enough
  refine ⟨_, second, .next (.next .done write) writeOther, rfl, createdOther.found, createdOther.size, ?_, ?_, ?_, ?_⟩
  · rw [createdOther.others 0 (by decide), used]
  · rw [createdOther.others 0 (by decide), created.size]
  · intro some zero
    obtain ⟨block, alloc, head⟩ := createdOther.firstFit (List.length_eq_zero_iff.not.mpr some)
    have isZero : block = 0 := Fin.ext (head.symm.trans zero)
    exact (created.block_zero write).2 (isZero ▸ allocBlock_free alloc)
  · simp only [List.nil_append, List.cons_append, List.forall_mem_cons, List.not_mem_nil, false_implies, implies_true,
      and_true]
    refine ⟨?_, ?_⟩
    · intro idx releases
      cases (findFile_fsInit bss sampleName rootDir).symm.trans releases.2
    · intro idx releases
      cases absent.symm.trans releases.2

def otherDelete : FsEvent :=
  ⟨.delete otherName rootDir, [121, newline], .done⟩

/-- Deleting the second of two files loses nothing. -/
theorem noLeak_after_delete : ∃ trace fs, Run FsStep (fsInit bss) trace fs ∧
    trace.map Transition.label =
      [sampleWrite, ⟨.write otherName rootDir, typedFile [[120]], .done⟩, otherDelete] ∧ NoLeak fs := by
  obtain ⟨trace, fs, two⟩ :=
    two_files (show ∀ text ∈ [[120]], Verbatim text by simpa using sample_verbatim) (by decide)
  obtain ⟨typed, answer, agreed⟩ := readline_yes
  obtain ⟨deleted, delete, gone⟩ := fsDelete_deletes (show otherName.chars ≠ [] by decide) two.found answer agreed
  let last : Transition FileSystem FsEvent := ⟨fs, otherDelete, deleted.fs⟩
  have step : FsStep fs otherDelete deleted.fs := ⟨deleted, delete, rfl, gone⟩
  have labelled : (trace ++ [last]).map Transition.label =
      [sampleWrite, ⟨.write otherName rootDir, typedFile [[120]], .done⟩, otherDelete] := by
    rw [List.map_append, two.labels]
    rfl
  have notFull : ∀ step ∈ trace ++ [last], step.label.report ≠ .diskFull := by
    intro taken member
    have oneOf : taken.label ∈ (trace ++ [last]).map Transition.label := List.mem_map_of_mem member
    rw [labelled] at oneOf
    simp only [List.mem_cons, List.not_mem_nil, or_false] at oneOf
    rcases oneOf with same | same | same <;> rw [same] <;> decide
  have keepsAll : ∀ step ∈ trace ++ [last], KeepsBlockZero step := by
    intro taken member
    rcases List.mem_append.mp member with before | isLast
    · exact two.keeps taken before
    · rw [List.mem_singleton.mp isLast]
      intro idx releases
      cases two.found.symm.trans releases.2.1
      exact two.elsewhere (by decide)
  have whole : Run FsStep (fsInit bss) (trace ++ [last]) deleted.fs := .next two.run step
  exact ⟨_, deleted.fs, whole, labelled, (noLeak_of_run whole notFull).1.mpr keepsAll⟩

end DugOS.Fs
