import DugOS.Fs.Chains

namespace DugOS.Fs

open Data

/-! `write_to_blocks` either builds a fresh chain that holds the data or takes
every free block and gives up. -/

/-- `data` was written to a new chain of formerly free blocks. -/
structure Stored (before : Disk) (data : List UInt8) (after : Disk) (first : Nat)
    (chain : List BlockIndex) : Prop where
  linked : FatChain after.fat first chain
  length : chain.length = blocksFor data.length
  wasFree : ∀ block ∈ chain, before.fat block = fatFree
  nowUsed : ∀ block ∈ chain, after.fat block ≠ fatFree
  sameFat : ∀ block ∉ chain, after.fat block = before.fat block
  sameBlocks : ∀ block ∉ chain, after.blocks block = before.blocks block
  contents : readChain after first data.length = data
  firstFit : ∀ block ∈ chain.head?, allocBlock before.fat = some block

/-- The free blocks ran out before `data` was written. They all stay taken. -/
structure Exhausted (before : Disk) (data : List UInt8) (after : Disk) : Prop where
  full : ∀ block, after.fat block ≠ fatFree
  short : (freeBlocks before.fat).card < blocksFor data.length
  sameFat : ∀ block, before.fat block ≠ fatFree → after.fat block = before.fat block
  sameBlocks : ∀ block, before.fat block ≠ fatFree → after.blocks block = before.blocks block

variable {disk after : Disk} {data : List UInt8} {first : Nat} {last blk : BlockIndex}
  {chain : List BlockIndex}

theorem freeBlocks_eq_empty {fat : Fat} (full : ∀ block, fat block ≠ fatFree) : freeBlocks fat = ∅ := by
  ext block
  simp [full block]

theorem Stored.freeBlocks_card (stored : Stored disk data after first chain) :
    (freeBlocks after.fat).card + blocksFor data.length = (freeBlocks disk.fat).card := by
  have split : freeBlocks disk.fat = freeBlocks after.fat ∪ chain.toFinset := by
    ext block
    simp only [mem_freeBlocks, Finset.mem_union, List.mem_toFinset]
    by_cases member : block ∈ chain
    · simp [member, stored.wasFree block member]
    · simp [member, stored.sameFat block member]
  have apart : Disjoint (freeBlocks after.fat) chain.toFinset := by
    rw [Finset.disjoint_right]
    intro block member
    rw [mem_freeBlocks]
    exact stored.nowUsed block (List.mem_toFinset.mp member)
  rw [split, Finset.card_union_of_disjoint apart, List.toFinset_card_of_nodup stored.linked.nodup,
    stored.length]

theorem Stored.enough (stored : Stored disk data after first chain) :
    blocksFor data.length ≤ (freeBlocks disk.fat).card :=
  stored.freeBlocks_card ▸ Nat.le_add_left ..

section Loop

/-- The loop behind the block `last`, whose entry is still the end marker. It
hangs a chain behind `last`, or runs out of blocks. -/
structure Extended (before : Disk) (last : BlockIndex) (data : List UInt8) (after : Disk)
    (chain : List BlockIndex) : Prop where
  linked : FatChain after.fat (after.fat last) chain
  length : chain.length = blocksFor data.length
  wasFree : ∀ block ∈ chain, before.fat block = fatFree
  nowUsed : ∀ block ∈ chain, after.fat block ≠ fatFree
  lastUsed : after.fat last ≠ fatFree
  sameFat : ∀ block ∉ chain, block ≠ last → after.fat block = before.fat block
  sameBlocks : ∀ block ∉ chain, after.blocks block = before.blocks block
  contents : readChain after (after.fat last) data.length = data

structure Overrun (before : Disk) (last : BlockIndex) (data : List UInt8) (after : Disk) : Prop where
  full : ∀ block, after.fat block ≠ fatFree
  short : (freeBlocks before.fat).card < blocksFor data.length
  sameFat : ∀ block, before.fat block ≠ fatFree → block ≠ last → after.fat block = before.fat block
  sameBlocks : ∀ block, before.fat block ≠ fatFree → after.blocks block = before.blocks block

theorem writeLoop_nil {prev : Option BlockIndex} : writeLoop disk first prev [] = (disk, first) := by
  rw [writeLoop, dif_pos rfl]

theorem writeLoop_full {prev : Option BlockIndex} (nonempty : data ≠ [])
    (none : allocBlock disk.fat = none) : writeLoop disk first prev data = (disk, fsNBlocks) := by
  rw [writeLoop, dif_neg nonempty]
  simp only [none]

theorem writeLoop_step (first : Nat) (prev : Option BlockIndex) (nonempty : data ≠ [])
    (found : allocBlock disk.fat = some blk) :
    writeLoop disk first prev data =
      writeLoop (takeBlock disk prev blk data) (if first = fatEnd then blk.val else first) (some blk)
        (data.drop (min data.length fsBlockSize)) := by
  rw [writeLoop, dif_neg nonempty]
  simp only [found]
  rfl

theorem takeBlock_blocks_self {prev : Option BlockIndex} :
    ((takeBlock disk prev blk data).blocks blk).bytes.take (min data.length fsBlockSize) =
      data.take (min data.length fsBlockSize) := by
  have cut : (data.take (min data.length fsBlockSize)).length = min data.length fsBlockSize := by
    simp only [List.length_take]
    omega
  simp only [takeBlock, Function.update_self, Buffer.write, List.take_zero, List.nil_append]
  exact List.take_left' cut

theorem takeBlock_blocks_other {prev : Option BlockIndex} {block : BlockIndex} (different : block ≠ blk) :
    (takeBlock disk prev blk data).blocks block = disk.blocks block := by
  simp [takeBlock, different]

theorem takeBlock_fat_other {block : BlockIndex} (different : block ≠ blk) (notLast : block ≠ last) :
    (takeBlock disk (some last) blk data).fat block = disk.fat block := by
  simp [takeBlock, different, notLast]

/-- Taking a block makes one free block less, as long as the link written to
the block before it is not the free marker. -/
theorem takeBlock_freeBlocks (prev : Option BlockIndex) (data : List UInt8) (found : disk.fat blk = fatFree)
    (linkable : ∀ last ∈ prev, disk.fat last ≠ fatFree ∧ blk ≠ 0) :
    (freeBlocks disk.fat).card = (freeBlocks (takeBlock disk prev blk data).fat).card + 1 := by
  have erased : freeBlocks (takeBlock disk prev blk data).fat = (freeBlocks disk.fat).erase blk := by
    ext block
    simp only [mem_freeBlocks, Finset.mem_erase]
    cases prev with
    | none =>
        by_cases isBlk : block = blk
        · simp [takeBlock, isBlk]
        · simp [takeBlock, isBlk]
    | some last =>
        obtain ⟨lastUsed, notZero⟩ := linkable last rfl
        have linkUsed : blk.val ≠ fatFree := fun zero => notZero (Fin.ext zero)
        by_cases isLast : block = last
        · simp [takeBlock, isLast, lastUsed, linkUsed]
        · by_cases isBlk : block = blk
          · subst isBlk
            simp [takeBlock, isLast]
          · simp [takeBlock, isLast, isBlk]
  rw [erased, Finset.card_erase_add_one (by simpa using found)]

theorem blocksFor_drop (nonempty : data ≠ []) :
    blocksFor data.length = blocksFor (data.drop (min data.length fsBlockSize)).length + 1 := by
  rw [List.length_drop]
  exact blocksFor_step (List.length_pos_iff.mpr nonempty)

theorem Extended.cons (found : disk.fat blk = fatFree) (lastUsed : disk.fat last ≠ fatFree)
    (notZero : blk ≠ 0) (nonempty : data ≠ [])
    (rest : Extended (takeBlock disk (some last) blk data) blk
      (data.drop (min data.length fsBlockSize)) after chain) :
    Extended disk last data after (blk :: chain) := by
  have linkUsed : blk.val ≠ fatFree := fun zero => notZero (Fin.ext zero)
  have different : last ≠ blk := by
    intro same
    subst same
    exact lastUsed found
  have lastLink : (takeBlock disk (some last) blk data).fat last = blk.val := by simp [takeBlock]
  have blkLink : (takeBlock disk (some last) blk data).fat blk = fatEnd := by
    simp [takeBlock, Function.update_of_ne (Ne.symm different)]
  have lastOff : last ∉ chain := fun member => linkUsed (lastLink.symm.trans (rest.wasFree last member))
  have blkOff : blk ∉ chain := fun member => by
    have free := rest.wasFree blk member
    rw [blkLink] at free
    exact absurd free (by decide)
  have lastNow : after.fat last = blk.val := (rest.sameFat last lastOff different).trans lastLink
  constructor
  case linked =>
    rw [lastNow]
    exact ⟨rfl, rest.linked⟩
  case length =>
    rw [List.length_cons, rest.length, blocksFor_drop nonempty]
  case wasFree =>
    intro block member
    rcases List.mem_cons.mp member with rfl | member
    · exact found
    · have notBlk : block ≠ blk := ne_of_mem_of_not_mem member blkOff
      have notLast : block ≠ last := ne_of_mem_of_not_mem member lastOff
      exact (takeBlock_fat_other notBlk notLast).symm.trans (rest.wasFree block member)
  case nowUsed =>
    intro block member
    rcases List.mem_cons.mp member with rfl | member
    · exact rest.lastUsed
    · exact rest.nowUsed block member
  case lastUsed => rwa [lastNow]
  case sameFat =>
    intro block outside notLast
    simp only [List.mem_cons, not_or] at outside
    rw [rest.sameFat block outside.2 outside.1, takeBlock_fat_other outside.1 notLast]
  case sameBlocks =>
    intro block outside
    simp only [List.mem_cons, not_or] at outside
    rw [rest.sameBlocks block outside.2, takeBlock_blocks_other outside.1]
  case contents =>
    have tail := rest.contents
    rw [List.length_drop] at tail
    rw [lastNow, readChain_cons (List.length_pos_iff.mpr nonempty), tail,
      rest.sameBlocks blk blkOff, takeBlock_blocks_self, List.take_append_drop]

theorem Overrun.cons (found : disk.fat blk = fatFree) (lastUsed : disk.fat last ≠ fatFree)
    (notZero : blk ≠ 0) (nonempty : data ≠ [])
    (rest : Overrun (takeBlock disk (some last) blk data) blk
      (data.drop (min data.length fsBlockSize)) after) :
    Overrun disk last data after := by
  have keptUsed : ∀ block, disk.fat block ≠ fatFree → block ≠ blk := by
    intro block used same
    subst same
    exact used found
  have stillUsed : ∀ block, disk.fat block ≠ fatFree →
      (takeBlock disk (some last) blk data).fat block ≠ fatFree := by
    intro block used
    by_cases isLast : block = last
    · simpa [takeBlock, isLast] using fun zero => notZero (Fin.ext zero)
    · rwa [takeBlock_fat_other (keptUsed block used) isLast]
  refine ⟨rest.full, ?_, ?_, ?_⟩
  · have short := rest.short
    have fewer := takeBlock_freeBlocks (some last) data found (by
      intro _ impossible
      cases impossible
      exact ⟨lastUsed, notZero⟩)
    rw [fewer, blocksFor_drop nonempty]
    omega
  · intro block used notLast
    rw [rest.sameFat block (stillUsed block used) (keptUsed block used),
      takeBlock_fat_other (keptUsed block used) notLast]
  · intro block used
    rw [rest.sameBlocks block (stillUsed block used), takeBlock_blocks_other (keptUsed block used)]

/-- The loop never takes block 0 once it has taken a block, so that every link
it writes is told apart from the free marker. -/
theorem writeLoop_spec (data : List UInt8) (lastEnd : disk.fat last = fatEnd) (zeroUsed : disk.fat 0 ≠ fatFree)
    (firstSet : first ≠ fatEnd) :
    ∃ after, (writeLoop disk first (some last) data = (after, first) ∧
        ∃ chain, Extended disk last data after chain) ∨
      (writeLoop disk first (some last) data = (after, fsNBlocks) ∧ Overrun disk last data after) := by
  have lastUsed : disk.fat last ≠ fatFree := by
    rw [lastEnd]
    decide
  generalize size : data.length = count
  induction count using Nat.strongRecOn generalizing disk last data with
  | ind count ih =>
      by_cases empty : data = []
      · subst empty
        refine ⟨disk, .inl ⟨writeLoop_nil, [], ?_⟩⟩
        exact ⟨lastEnd, rfl, by simp, by simp, lastUsed, by simp, by simp,
          readChain_nil (by simp)⟩
      · have positive := List.length_pos_iff.mpr empty
        cases found : allocBlock disk.fat with
        | none =>
            have full := allocBlock_none found
            refine ⟨disk, .inr ⟨writeLoop_full empty found, full, ?_, by simp, by simp⟩⟩
            rw [freeBlocks_eq_empty full, Finset.card_empty]
            exact blocksFor_pos positive
        | some blk =>
            have free := allocBlock_free found
            have notZero : blk ≠ 0 := by
              intro same
              subst same
              exact zeroUsed free
            have different : blk ≠ last := by
              intro same
              subst same
              exact lastUsed free
            have linkUsed : blk.val ≠ fatFree := fun zero => notZero (Fin.ext zero)
            have nextEnd : (takeBlock disk (some last) blk data).fat blk = fatEnd := by
              simp [takeBlock, different]
            have nextZero : (takeBlock disk (some last) blk data).fat 0 ≠ fatFree := by
              by_cases isLast : 0 = last
              · simpa [takeBlock, ← isLast] using linkUsed
              · rwa [takeBlock_fat_other (Ne.symm notZero) isLast]
            have smaller : (data.drop (min data.length fsBlockSize)).length < count := by
              rw [List.length_drop, ← size]
              exact sub_chunk_lt positive
            have step := writeLoop_step first (some last) empty found
            rw [if_neg firstSet] at step
            obtain ⟨after, ⟨run, chain, extended⟩ | ⟨run, overrun⟩⟩ := ih _ smaller _ nextEnd nextZero
              (by rw [nextEnd]; decide) rfl
            · exact ⟨after, .inl ⟨step.trans run, blk :: chain,
                extended.cons free lastUsed notZero empty⟩⟩
            · exact ⟨after, .inr ⟨step.trans run, overrun.cons free lastUsed notZero empty⟩⟩

end Loop

theorem Extended.stored (found : allocBlock disk.fat = some blk) (nonempty : data ≠ [])
    (rest : Extended (takeBlock disk none blk data) blk
      (data.drop (min data.length fsBlockSize)) after chain) :
    Stored disk data after blk.val (blk :: chain) := by
  have blkOff : blk ∉ chain := fun member => by
    have free := rest.wasFree blk member
    simp [takeBlock] at free
  have other : ∀ block, block ≠ blk → (takeBlock disk none blk data).fat block = disk.fat block := by
    intro block different
    simp [takeBlock, different]
  constructor
  case linked => exact ⟨rfl, rest.linked⟩
  case length => rw [List.length_cons, rest.length, blocksFor_drop nonempty]
  case wasFree =>
    intro block member
    rcases List.mem_cons.mp member with rfl | member
    · exact allocBlock_free found
    · exact (other block (ne_of_mem_of_not_mem member blkOff)).symm.trans (rest.wasFree block member)
  case nowUsed =>
    intro block member
    rcases List.mem_cons.mp member with rfl | member
    · exact rest.lastUsed
    · exact rest.nowUsed block member
  case sameFat =>
    intro block outside
    simp only [List.mem_cons, not_or] at outside
    rw [rest.sameFat block outside.2 outside.1, other block outside.1]
  case sameBlocks =>
    intro block outside
    simp only [List.mem_cons, not_or] at outside
    rw [rest.sameBlocks block outside.2, takeBlock_blocks_other outside.1]
  case contents =>
    have tail := rest.contents
    rw [List.length_drop] at tail
    rw [readChain_cons (List.length_pos_iff.mpr nonempty), tail, rest.sameBlocks blk blkOff,
      takeBlock_blocks_self, List.take_append_drop]
  case firstFit => simpa using found

theorem Overrun.exhausted (found : disk.fat blk = fatFree) (nonempty : data ≠ [])
    (rest : Overrun (takeBlock disk none blk data) blk
      (data.drop (min data.length fsBlockSize)) after) :
    Exhausted disk data after := by
  have keptUsed : ∀ block, disk.fat block ≠ fatFree → block ≠ blk := by
    intro block used same
    subst same
    exact used found
  have other : ∀ block, disk.fat block ≠ fatFree →
      (takeBlock disk none blk data).fat block = disk.fat block := by
    intro block used
    simp [takeBlock, keptUsed block used]
  refine ⟨rest.full, ?_, ?_, ?_⟩
  · have short := rest.short
    rw [takeBlock_freeBlocks none data found (by simp), blocksFor_drop nonempty]
    omega
  · intro block used
    rw [rest.sameFat block (by rwa [other block used]) (keptUsed block used), other block used]
  · intro block used
    rw [rest.sameBlocks block (by rwa [other block used]), takeBlock_blocks_other (keptUsed block used)]

theorem stored_nil (disk : Disk) : Stored disk [] disk fatEnd [] :=
  ⟨rfl, rfl, by simp, by simp, by simp, by simp, readChain_nil (by simp), by simp⟩

/-- `write_to_blocks` in any table: it stores the data, or there were too few
free blocks. -/
theorem writeToBlocks_spec (disk : Disk) (data : List UInt8) :
    (∃ after first chain, writeToBlocks disk data = (after, first) ∧ first ≠ fsNBlocks ∧
        Stored disk data after first chain) ∨
      ∃ after, writeToBlocks disk data = (after, fsNBlocks) ∧ Exhausted disk data after := by
  by_cases empty : data = []
  · subst empty
    exact .inl ⟨disk, fatEnd, [], by simp [writeToBlocks], by decide, stored_nil disk⟩
  · cases found : allocBlock disk.fat with
    | none =>
        have full := allocBlock_none found
        refine .inr ⟨disk, ?_, full, ?_, by simp, by simp⟩
        · rw [writeToBlocks, if_neg empty, writeLoop_full empty found]
        · rw [freeBlocks_eq_empty full, Finset.card_empty]
          exact blocksFor_pos (List.length_pos_iff.mpr empty)
    | some blk =>
        have free := allocBlock_free found
        have blkEnd : (takeBlock disk none blk data).fat blk = fatEnd := by simp [takeBlock]
        have zeroUsed : (takeBlock disk none blk data).fat 0 ≠ fatFree := by
          by_cases zero : blk = 0
          · subst zero
            rw [blkEnd]
            decide
          · simpa [takeBlock, Function.update_of_ne (Ne.symm zero)] using allocBlock_zero found zero
        have step : writeToBlocks disk data = writeLoop (takeBlock disk none blk data) blk.val (some blk)
            (data.drop (min data.length fsBlockSize)) := by
          rw [writeToBlocks, if_neg empty, writeLoop_step fatEnd none empty found, if_pos rfl]
        obtain ⟨after, ⟨run, chain, extended⟩ | ⟨run, overrun⟩⟩ :=
          writeLoop_spec (data.drop (min data.length fsBlockSize)) blkEnd zeroUsed (val_ne_fatEnd blk)
        · exact .inl ⟨after, blk.val, blk :: chain, step.trans run, Nat.ne_of_lt blk.isLt,
            extended.stored found empty⟩
        · exact .inr ⟨after, step.trans run, overrun.exhausted free empty⟩

/-- What the walks of the readers yield from `first` on. -/
structure ReadsBack (disk : Disk) (first : Nat) (data : List UInt8) : Prop where
  printed : emitChain disk first data.length = data.flatMap emitChar
  copied : ∀ tmp : Buffer (fsNBlocks * fsBlockSize), ∃ after,
    copyChain disk tmp 0 first data.length = some after ∧ after.bytes.take data.length = data

theorem Stored.readsBack (stored : Stored disk data after first chain)
    (fits : data.length ≤ fsNBlocks * fsBlockSize) :
    ReadsBack after first data := by
  refine ⟨by rw [emitChain_eq, stored.contents], ?_⟩
  intro tmp
  obtain ⟨copied, run, bytes⟩ := copyChain_eq after first data.length 0 tmp (by rw [stored.contents]; omega)
  rw [stored.contents, Nat.zero_add, List.take_zero, List.nil_append] at bytes
  exact ⟨copied, run, bytes⟩

/-- In any table, data is stored exactly if there are enough free blocks for it.
Every reader then gets it back, and what was in use before stays as it was. -/
theorem writeToBlocks_round_trip (disk : Disk) (data : List UInt8) (nonempty : data ≠ [])
    (fits : data.length ≤ 262144) :
    ((writeToBlocks disk data).2 = fsNBlocks ↔ (freeBlocks disk.fat).card < blocksFor data.length) ∧
    ((writeToBlocks disk data).2 ≠ fsNBlocks →
      (writeToBlocks disk data).2 < fsNBlocks ∧
      ReadsBack (writeToBlocks disk data).1 (writeToBlocks disk data).2 data ∧
      ∀ block, disk.fat block ≠ fatFree → (writeToBlocks disk data).1.fat block = disk.fat block ∧
        (writeToBlocks disk data).1.blocks block = disk.blocks block) := by
  rcases writeToBlocks_spec disk data with ⟨after, first, chain, run, notFull, stored⟩ | ⟨after, run, exhausted⟩
  · rw [run]
    have enough := stored.enough
    refine ⟨iff_of_false notFull (Nat.not_lt.mpr enough), ?_⟩
    intro _
    refine ⟨?_, stored.readsBack fits, ?_⟩
    · have length := stored.length
      have linked := stored.linked
      cases chain with
      | nil =>
          have positive := blocksFor_pos (List.length_pos_iff.mpr nonempty)
          rw [← length] at positive
          cases positive
      | cons head chain =>
          obtain ⟨same, _⟩ := linked
          exact same ▸ head.isLt
    · intro block used
      have outside : block ∉ chain := fun member => used (stored.wasFree block member)
      exact ⟨stored.sameFat block outside, stored.sameBlocks block outside⟩
  · rw [run]
    exact ⟨iff_of_true rfl exhausted.short, fun notFull => absurd rfl notFull⟩

/-- Block 1 holds a file of one block. -/
def usedDisk : Disk :=
  ⟨fun block => if block.val = 1 then fatEnd else fatFree, fun _ => .zeros fsBlockSize⟩

/-- Data of two blocks, around the one that is in use. -/
theorem two_blocks_round_trip :
    (writeToBlocks usedDisk (List.replicate 40000 120)).2 < fsNBlocks ∧
    ReadsBack (writeToBlocks usedDisk (List.replicate 40000 120)).1
      (writeToBlocks usedDisk (List.replicate 40000 120)).2 (List.replicate 40000 120) ∧
    (writeToBlocks usedDisk (List.replicate 40000 120)).1.fat 1 = fatEnd := by
  have length : (List.replicate 40000 (120 : UInt8)).length = 40000 := List.length_replicate
  have free : (freeBlocks usedDisk.fat).card = 7 := by decide
  have roundTrip := writeToBlocks_round_trip usedDisk (List.replicate 40000 120)
    (List.length_pos_iff.mp (by rw [length]; decide)) (by rw [length]; decide)
  rw [length, free] at roundTrip
  have enough : ¬ 7 < blocksFor 40000 := by decide
  obtain ⟨inside, reads, kept⟩ := roundTrip.2 (mt roundTrip.1.mp enough)
  exact ⟨inside, reads, (kept 1 (by decide)).1⟩

end DugOS.Fs
