import DugOS.Fs.Disk

namespace DugOS.Fs

open Data

/-! What the walks and the allocator do to chains of blocks. -/

variable {fat changed : Fat} {disk after : Disk} {start left first : Nat} {block head : BlockIndex}
  {chain other : List BlockIndex} {data : List UInt8}

/-- Following the table from `start` visits exactly `chain` and then meets the
end marker. -/
def FatChain (fat : Fat) (start : Nat) (chain : List BlockIndex) : Prop :=
  Linked Fin.val fatEnd fat start chain

theorem val_ne_fatEnd (block : BlockIndex) : block.val ≠ fatEnd := by
  have inside := block.isLt
  simp only [fsNBlocks] at inside
  simp only [fatEnd]
  omega

theorem fatEnd_outside : ¬ fatEnd < fsNBlocks := by
  decide

theorem FatChain.unique (linked : FatChain fat start chain) (linkedOther : FatChain fat start other) :
    chain = other :=
  Linked.unique Fin.val_injective val_ne_fatEnd linked linkedOther

theorem FatChain.nodup (linked : FatChain fat start chain) : chain.Nodup :=
  Linked.nodup Fin.val_injective val_ne_fatEnd linked

theorem FatChain.frame (linked : FatChain fat start chain)
    (same : ∀ block ∈ chain, changed block = fat block) : FatChain changed start chain :=
  Linked.frame linked same

/-- The number of blocks that hold `size` bytes. -/
def blocksFor (size : Nat) : Nat :=
  (size + (fsBlockSize - 1)) / fsBlockSize

@[simp] theorem blocksFor_zero : blocksFor 0 = 0 := rfl

theorem blocksFor_pos (positive : 0 < left) : 0 < blocksFor left := by
  simp only [blocksFor, fsBlockSize]
  omega

theorem blocksFor_eq_zero : blocksFor left = 0 ↔ left = 0 := by
  constructor
  · intro none
    by_contra some
    have := blocksFor_pos (Nat.pos_of_ne_zero some)
    omega
  · intro same
    subst same
    rfl

theorem blocksFor_step (positive : 0 < left) :
    blocksFor left = blocksFor (left - min left fsBlockSize) + 1 := by
  simp only [blocksFor, fsBlockSize]
  omega

theorem blocksFor_le_iff {count : Nat} : blocksFor left ≤ count ↔ left ≤ count * fsBlockSize := by
  simp only [blocksFor, fsBlockSize]
  omega

section Allocation

theorem allocBlock_free (found : allocBlock fat = some block) : fat block = fatFree := by
  simpa using List.find?_some found

/-- Allocation is first-fit: another block than 0 is handed out only while
block 0 is in use. -/
theorem allocBlock_zero (found : allocBlock fat = some block) (notZero : block ≠ 0) :
    fat 0 ≠ fatFree := by
  intro free
  have first : allocBlock fat = some 0 := by
    simp [allocBlock, List.finRange_succ, free]
  exact notZero (Option.some.inj (found.symm.trans first))

theorem allocBlock_none (full : allocBlock fat = none) (block : BlockIndex) :
    fat block ≠ fatFree := by
  simpa using List.find?_eq_none.mp full block (List.mem_finRange block)

end Allocation

section Release

theorem freeChain_stop (stopped : ¬ (start < fsNBlocks ∧ start ≠ fatEnd ∧ start ≠ fatFree)) :
    freeChain fat start = fat := by
  rw [freeChain, dif_neg stopped]

/-- The blocks that the turns of the loop of `free_chain` store into, in order. -/
def freeTurns (fat : Fat) (start : Nat) : List BlockIndex :=
  if inside : start < fsNBlocks ∧ start ≠ fatEnd ∧ start ≠ fatFree then
    ⟨start, inside.1⟩ :: freeTurns (Function.update fat ⟨start, inside.1⟩ fatFree) (fat ⟨start, inside.1⟩)
  else []
termination_by walkMeasure fat start
decreasing_by exact walkMeasure_decreases inside.1 inside.2.2

/-- The block that a link leads to: none behind 0 and behind values that are out
of range. -/
def blockAt (value : Nat) : Option BlockIndex :=
  if inside : value < fsNBlocks ∧ value ≠ fatFree then some ⟨value, inside.1⟩ else none

def cleared (fat : Fat) (visited : Finset BlockIndex) : Fat :=
  fun block => if block ∈ visited then fatFree else fat block

variable {visited : Finset BlockIndex} {value : Nat}

theorem blockAt_none (outside : blockAt value = none) : freeTurns fat value = [] := by
  have stopped : ¬ (value < fsNBlocks ∧ value ≠ fatFree) := by
    intro inside
    rw [blockAt, dif_pos inside] at outside
    simp at outside
  rw [freeTurns, dif_neg (fun inside => stopped ⟨inside.1, inside.2.2⟩)]

theorem blockAt_some (inside : blockAt value = some block) : value = block.val ∧ block.val ≠ fatFree := by
  by_cases within : value < fsNBlocks ∧ value ≠ fatFree
  · rw [blockAt, dif_pos within, Option.some.injEq] at inside
    subst inside
    exact ⟨rfl, within.2⟩
  · rw [blockAt, dif_neg within] at inside
    simp at inside

theorem freeTurns_cons (notFree : block.val ≠ fatFree) :
    freeTurns fat block.val = block :: freeTurns (Function.update fat block fatFree) (fat block) := by
  rw [freeTurns, dif_pos ⟨block.isLt, val_ne_fatEnd block, notFree⟩]

theorem update_cleared :
    Function.update (cleared fat visited) block fatFree = cleared fat (insert block visited) := by
  funext other
  by_cases same : other = block
  · simp [same, cleared]
  · simp [same, cleared]

theorem freeChain_turns (fat : Fat) (start : Nat) :
    freeChain fat start =
      (freeTurns fat start).foldl (fun fat block => Function.update fat block fatFree) fat := by
  induction fat, start using freeChain.induct with
  | case1 fat start inside ih =>
      rw [freeChain, dif_pos inside, freeTurns, dif_pos inside, List.foldl_cons]
      exact ih
  | case2 fat start stopped => rw [freeChain_stop stopped, freeTurns, dif_neg stopped, List.foldl_nil]

theorem foldl_update (fat : Fat) (turns : List BlockIndex) (visited : Finset BlockIndex) :
    turns.foldl (fun fat block => Function.update fat block fatFree) (cleared fat visited) =
      cleared fat (visited ∪ turns.toFinset) := by
  induction turns generalizing visited with
  | nil => simp
  | cons block turns ih =>
      rw [List.foldl_cons, update_cleared, ih]
      congr 1
      simp

/-- The loop follows the links as they were before it, since it reads an entry
that it has freed only after a revisit, and then stops. -/
theorem freeTurns_cleared (fat : Fat) (visited : Finset BlockIndex) (value : Nat) :
    ∃ again, freeTurns (cleared fat visited) value = reached blockAt fat visited value ++ again ∧
      again.length ≤ 1 ∧ ∀ block ∈ again, block ∈ visited ∨ block ∈ reached blockAt fat visited value := by
  induction visited, value using reached.induct blockAt fat with
  | case1 visited value outside =>
      rw [reached_none fat visited outside, blockAt_none outside]
      exact ⟨[], rfl, by simp, by simp⟩
  | case2 visited value block inside fresh ih =>
      obtain ⟨again, turns, once, met⟩ := ih
      obtain ⟨rfl, notFree⟩ := blockAt_some inside
      have original : cleared fat visited block = fat block := if_neg fresh
      rw [reached_fresh fat inside fresh, freeTurns_cons notFree, original, update_cleared, turns]
      refine ⟨again, rfl, once, ?_⟩
      intro other member
      have known := met other member
      rw [Finset.mem_insert] at known
      rw [List.mem_cons]
      tauto
  | case3 visited value block inside revisited =>
      have member : block ∈ visited := not_not.mp revisited
      obtain ⟨rfl, notFree⟩ := blockAt_some inside
      have freed : cleared fat visited block = fatFree := if_pos member
      have stops : blockAt fatFree = none := rfl
      rw [reached_visited fat inside member, freeTurns_cons notFree, freed, blockAt_none stops]
      exact ⟨[block], rfl, by simp, by simp [member]⟩

theorem mem_freeTurns (fat : Fat) (start : Nat) (block : BlockIndex) :
    block ∈ freeTurns fat start ↔ block ∈ reached blockAt fat ∅ start := by
  obtain ⟨again, turns, _, met⟩ := freeTurns_cleared fat ∅ start
  have known := met block
  change freeTurns fat start = _ at turns
  rw [turns, List.mem_append]
  simp only [Finset.notMem_empty, false_or] at known
  tauto

theorem freeChain_cleared (fat : Fat) (start : Nat) :
    freeChain fat start = cleared fat (reached blockAt fat ∅ start).toFinset := by
  have run := foldl_update fat (freeTurns fat start) ∅
  have same : (freeTurns fat start).toFinset = (reached blockAt fat ∅ start).toFinset := by
    ext block
    rw [List.mem_toFinset, List.mem_toFinset, mem_freeTurns]
  rw [Finset.empty_union, same] at run
  rw [freeChain_turns, ← run]
  rfl

/-- A chain of blocks in use is met in its order, unless it starts at block 0. -/
theorem FatChain.reached (linked : FatChain fat start chain) (used : ∀ block ∈ chain, fat block ≠ fatFree)
    (notFree : start ≠ fatFree) (fresh : ∀ block ∈ chain, block ∉ visited) :
    Data.reached blockAt fat visited start = chain := by
  induction chain generalizing start visited with
  | nil =>
      have ended : start = fatEnd := linked
      rw [ended]
      exact reached_none fat visited rfl
  | cons head chain ih =>
      obtain ⟨rfl, rest⟩ := linked
      have whole : FatChain fat head.val (head :: chain) := ⟨rfl, rest⟩
      have distinct := List.nodup_cons.mp whole.nodup
      have inside : blockAt head.val = some head := dif_pos ⟨head.isLt, notFree⟩
      rw [reached_fresh fat inside (fresh head (by simp))]
      congr 1
      apply ih rest (fun block member => used block (by simp [member])) (used head (by simp))
      intro block member
      rw [Finset.mem_insert, not_or]
      exact ⟨ne_of_mem_of_not_mem member distinct.1, fresh block (by simp [member])⟩

/-- Releasing a chain frees exactly its blocks. The one exception is a chain
that starts at block 0, whose number is the free marker: it is not released. -/
theorem freeChain_eq (linked : FatChain fat start chain) (used : ∀ block ∈ chain, fat block ≠ fatFree) :
    freeChain fat start =
      if start = fatFree then fat else fun block => if block ∈ chain then fatFree else fat block := by
  by_cases zero : start = fatFree
  · rw [freeChain_stop (by simp [zero]), if_pos zero]
  · rw [freeChain_cleared, linked.reached used zero (by simp), if_neg zero]
    funext block
    simp [cleared]

theorem reached_length (fat : Fat) (start : Nat) : (reached blockAt fat ∅ start).length < fsNBlocks := by
  obtain ⟨distinct, led⟩ := reached_spec blockAt fat ∅ start
  have zeroless : (reached blockAt fat ∅ start).toFinset ⊆ Finset.univ.erase 0 := by
    intro block member
    obtain ⟨_, value, inside⟩ := led block (List.mem_toFinset.mp member)
    refine Finset.mem_erase.mpr ⟨?_, Finset.mem_univ block⟩
    intro zero
    exact (blockAt_some inside).2 (congrArg Fin.val zero)
  have bounded := Finset.card_le_card zeroless
  rw [List.toFinset_card_of_nodup distinct] at bounded
  have others : (Finset.univ.erase (0 : BlockIndex)).card < fsNBlocks := by decide
  omega

/-- `free_chain` takes at most as many turns as there are blocks, and frees
exactly the blocks that the links lead to as they were before. -/
theorem freeChain_frees_reached (fat : Fat) (start : Nat) :
    freeChain fat start =
        (freeTurns fat start).foldl (fun fat block => Function.update fat block fatFree) fat ∧
      (freeTurns fat start).length ≤ fsNBlocks ∧
      (∀ block, block ∈ freeTurns fat start ↔ block ∈ reached blockAt fat ∅ start) ∧
      (∀ block ∈ reached blockAt fat ∅ start, freeChain fat start block = fatFree) ∧
      ∀ block, block ∉ reached blockAt fat ∅ start → freeChain fat start block = fat block := by
  refine ⟨freeChain_turns fat start, ?_, mem_freeTurns fat start, ?_, ?_⟩
  · obtain ⟨again, turns, once, _⟩ := freeTurns_cleared fat ∅ start
    have few := reached_length fat start
    change freeTurns fat start = _ at turns
    rw [turns, List.length_append]
    omega
  · intro block member
    rw [freeChain_cleared]
    exact if_pos (List.mem_toFinset.mpr member)
  · intro block other
    rw [freeChain_cleared]
    exact if_neg (fun member => other (List.mem_toFinset.mp member))

end Release

section Reading

theorem readChain_nil (ended : ¬ (start < fsNBlocks ∧ 0 < left)) : readChain disk start left = [] := by
  rw [readChain, dif_neg ended]

theorem readChain_step (disk : Disk) (inside : start < fsNBlocks ∧ 0 < left) :
    readChain disk start left = (disk.blocks ⟨start, inside.1⟩).bytes.take (min left fsBlockSize) ++
      readChain disk (disk.fat ⟨start, inside.1⟩) (left - min left fsBlockSize) := by
  rw [readChain, dif_pos inside]

theorem readChain_cons (positive : 0 < left) :
    readChain disk block.val left = (disk.blocks block).bytes.take (min left fsBlockSize) ++
      readChain disk (disk.fat block) (left - min left fsBlockSize) :=
  readChain_step disk ⟨block.isLt, positive⟩

theorem readChain_length (linked : FatChain disk.fat start chain)
    (enough : chain.length = blocksFor left) : (readChain disk start left).length = left := by
  induction chain generalizing start left with
  | nil =>
      have empty := blocksFor_eq_zero.mp enough.symm
      rw [readChain_nil (by omega), List.length_nil, empty]
  | cons head chain ih =>
      obtain ⟨rfl, rest⟩ := linked
      have positive : 0 < left := by
        rcases Nat.eq_zero_or_pos left with rfl | positive
        · simp at enough
        · exact positive
      have enoughRest : chain.length = blocksFor (left - min left fsBlockSize) := by
        rw [blocksFor_step positive] at enough
        simpa using enough
      rw [readChain_cons positive, List.length_append, ih rest enoughRest, List.length_take,
        Buffer.length_eq]
      omega

theorem readChain_congr (linked : FatChain disk.fat start chain)
    (sameFat : ∀ block ∈ chain, after.fat block = disk.fat block)
    (sameBlocks : ∀ block ∈ chain, after.blocks block = disk.blocks block) :
    readChain after start left = readChain disk start left := by
  induction chain generalizing start left with
  | nil =>
      have ended : start = fatEnd := linked
      rw [readChain_nil (by simp [ended, fatEnd_outside]), readChain_nil (by simp [ended, fatEnd_outside])]
  | cons head chain ih =>
      obtain ⟨rfl, rest⟩ := linked
      rcases Nat.eq_zero_or_pos left with rfl | positive
      · rw [readChain_nil (by simp), readChain_nil (by simp)]
      · rw [readChain_cons positive, readChain_cons positive, sameFat head (by simp),
          sameBlocks head (by simp)]
        rw [ih rest (fun block member => sameFat block (by simp [member]))
          (fun block member => sameBlocks block (by simp [member]))]

theorem emitChain_eq (disk : Disk) (start left : Nat) :
    emitChain disk start left = (readChain disk start left).flatMap emitChar := by
  induction left using Nat.strongRecOn generalizing start with
  | ind left ih =>
      by_cases inside : start < fsNBlocks ∧ 0 < left
      · rw [emitChain, dif_pos inside, readChain_step disk inside, List.flatMap_append]
        exact congrArg _ (ih _ (sub_chunk_lt inside.2) _)
      · rw [emitChain, dif_neg inside, readChain_nil inside, List.flatMap_nil]

theorem copyChain_eq {size : Nat} (disk : Disk) (start left off : Nat) (tmp : Buffer size)
    (room : off + (readChain disk start left).length ≤ size) :
    ∃ copied, copyChain disk tmp off start left = some copied ∧
      copied.bytes.take (off + (readChain disk start left).length) =
        tmp.bytes.take off ++ readChain disk start left := by
  induction left using Nat.strongRecOn generalizing start tmp off with
  | ind left ih =>
      by_cases inside : start < fsNBlocks ∧ 0 < left
      · have unfolded := readChain_step disk inside
        have chunkLength : ((disk.blocks ⟨start, inside.1⟩).bytes.take (min left fsBlockSize)).length =
            min left fsBlockSize := by
          simp only [List.length_take, Buffer.length_eq]
          omega
        rw [unfolded, List.length_append, chunkLength] at room
        obtain ⟨next, stored⟩ := tmp.store_exists off
          ((disk.blocks ⟨start, inside.1⟩).bytes.take (min left fsBlockSize)) (by omega)
        obtain ⟨copied, run, bytes⟩ := ih _ (sub_chunk_lt inside.2) (disk.fat ⟨start, inside.1⟩)
          (off + min left fsBlockSize) next (by omega)
        refine ⟨copied, ?_, ?_⟩
        · rw [copyChain, dif_pos inside]
          simp only [stored, Option.bind_some]
          exact run
        · have front := Buffer.store_take stored
          rw [chunkLength] at front
          rw [unfolded, List.length_append, chunkLength, ← Nat.add_assoc, bytes, front,
            List.append_assoc]
      · refine ⟨tmp, by rw [copyChain, dif_neg inside], ?_⟩
        rw [readChain_nil inside]
        simp

end Reading

end DugOS.Fs
