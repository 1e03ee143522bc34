import DugOS.Fs.FileMap

namespace DugOS.Fs

open Data

/-! The commands act on the map of the used entries as they are meant to, as
long as names and directories fit their fields. -/

variable {fs after boot : FileSystem} {event : FsEvent} {keys data : List UInt8} {op : FsOp} {report : Report}
  {chain : FileIndex → List BlockIndex} {entry fresh other : FileEntry} {idx : FileIndex} {name dir : CString}
  {disk : Disk} {first : Nat} {new : List BlockIndex} {trace : List (Transition FileSystem FsEvent)}

/-- Both strings of the entry end within their fields. -/
structure FileEntry.Terminated (entry : FileEntry) : Prop where
  name : 0 ∈ entry.name.bytes
  dir : 0 ∈ entry.dir.bytes

theorem FileEntry.Terminated.key_eq (terminated : entry.Terminated) :
    entry.key = ⟨cstr entry.dir.bytes, cstr entry.name.bytes⟩ := by
  rw [FileEntry.key, FileEntry.dirString, FileEntry.memory_drop, cstr_append_of_mem terminated.dir,
    FileEntry.nameString, FileEntry.memory, cstr_append_of_mem terminated.name]

theorem FileEntry.Terminated.same_key (terminated : entry.Terminated) (sameName : other.name = entry.name)
    (sameDir : other.dir = entry.dir) : other.Terminated ∧ other.key = entry.key := by
  have transferred : other.Terminated := ⟨sameName ▸ terminated.name, sameDir ▸ terminated.dir⟩
  exact ⟨transferred, by rw [transferred.key_eq, terminated.key_eq, sameName, sameDir]⟩

theorem terminated_of_fields (fits : Fits name dir) (storedName : entry.name = field name)
    (storedDir : entry.dir = field dir) : entry.Terminated ∧ entry.key = keyOf name dir := by
  have shortName : name.chars.length < fsNameLen := Nat.lt_succ_of_le fits.name
  have shortDir : dir.chars.length < fsDirLen := Nat.lt_succ_of_le fits.dir
  refine ⟨⟨?_, ?_⟩, ?_⟩
  · rw [storedName]
    exact (zero_mem_padded name.noNul).mpr shortName
  · rw [storedDir]
    exact (zero_mem_padded dir.noNul).mpr shortDir
  · rw [FileEntry.key, FileEntry.nameString_of_short storedName shortName,
      FileEntry.dirString_of_field storedDir shortDir, keyOf]

theorem FileEntry.Terminated.renamed (terminated : entry.Terminated) (fits : Fits name dir)
    (inDir : entry.dirString = dir.chars) :
    ({ entry with name := field name } : FileEntry).Terminated ∧
      ({ entry with name := field name } : FileEntry).key = keyOf name dir := by
  have shortName : name.chars.length < fsNameLen := Nat.lt_succ_of_le fits.name
  refine ⟨⟨(zero_mem_padded name.noNul).mpr shortName, terminated.dir⟩, ?_⟩
  rw [FileEntry.key, FileEntry.dirString_rename, FileEntry.nameString_of_short rfl shortName, inDir, keyOf]

section Contents

theorem Layout.content_rewrite (layout : Layout fs.fat fs.files chain) (used : (fs.files idx).used = true)
    (stored : Stored (released fs idx) data disk first new) (i : FileIndex) (different : i ≠ idx)
    (usedI : (fs.files i).used = true) : content disk (fs.files i) = content fs.toDisk (fs.files i) := by
  have vacated := layout.vacate used
  have kept := vacated.content_store (i := i) stored (by rwa [Function.update_of_ne different])
  rw [Function.update_of_ne different] at kept
  exact kept.trans (layout.content_release used different usedI)

theorem Layout.content_rewriteFailed (layout : Layout fs.fat fs.files chain) (used : (fs.files idx).used = true)
    (exhausted : Exhausted (released fs idx) data disk) (i : FileIndex) (different : i ≠ idx)
    (usedI : (fs.files i).used = true) : content disk (fs.files i) = content fs.toDisk (fs.files i) := by
  have vacated := layout.vacate used
  have kept := vacated.content_exhaust (i := i) exhausted (by rwa [Function.update_of_ne different])
  rw [Function.update_of_ne different] at kept
  exact kept.trans (layout.content_release used different usedI)

end Contents

section Table

/-- What the refinement rests on: chains in order, short strings, unique keys. -/
structure Keyed (fs : FileSystem) : Prop where
  valid : Valid fs
  terminated : ∀ i, (fs.files i).used = true → (fs.files i).Terminated
  unique : Unique (slots fs)

/-- One entry was replaced, and no other file changed its bytes. -/
structure Changed (fs : FileSystem) (idx : FileIndex) (fresh : FileEntry) (after : FileSystem) : Prop where
  valid : Valid after
  files : after.files = Function.update fs.files idx fresh
  contents : ∀ i, i ≠ idx → (fs.files i).used = true →
    content after.toDisk (fs.files i) = content fs.toDisk (fs.files i)

theorem Changed.slots_eq (changed : Changed fs idx fresh after) :
    slots after = Function.update (slots fs) idx (slot after.toDisk fresh) := by
  funext i
  by_cases isIdx : i = idx
  · subst isIdx
    rw [slots, changed.files, Function.update_self, Function.update_self]
  · rw [Function.update_of_ne isIdx, slots, slots, changed.files, Function.update_of_ne isIdx]
    cases used : (fs.files i).used with
    | false => rw [slot_of_unused used, slot_of_unused used]
    | true => rw [slot_of_used used, slot_of_used used, changed.contents i isIdx used]

theorem Changed.terminated (changed : Changed fs idx fresh after)
    (before : ∀ i, (fs.files i).used = true → (fs.files i).Terminated)
    (short : fresh.used = true → fresh.Terminated) :
    ∀ i, (after.files i).used = true → (after.files i).Terminated := by
  intro i used
  rw [changed.files] at used ⊢
  by_cases isIdx : i = idx
  · subst isIdx
    rw [Function.update_self] at used ⊢
    exact short used
  · rw [Function.update_of_ne isIdx] at used ⊢
    exact before i used

theorem Changed.clear (changed : Changed fs idx fresh after) (keyed : Keyed fs)
    (found : findFile fs.files name dir = some idx) (unused : fresh.used = false) :
    Keyed after ∧ fileMap after = Function.update (fileMap fs) (keyOf name dir) none := by
  have shape := changed.slots_eq
  rw [slot_of_unused unused] at shape
  have unique : Unique (slots after) := shape ▸ keyed.unique.clear
  refine ⟨⟨changed.valid, changed.terminated keyed.terminated (by simp [unused]), unique⟩, ?_⟩
  apply (fileMap_represents unique).unique_map
  rw [shape]
  exact (fileMap_represents keyed.unique).clear keyed.unique (findFile_slots found)

/-- Giving an entry other bytes, or another key that is not taken. -/
theorem Changed.replace {key : Key} (changed : Changed fs idx fresh after) (keyed : Keyed fs)
    (found : findFile fs.files name dir = some idx) (used : fresh.used = true)
    (short : fresh.Terminated ∧ fresh.key = key) (absent : key = keyOf name dir ∨ fileMap fs key = none) :
    Keyed after ∧ fileMap after =
      Function.update (Function.update (fileMap fs) (keyOf name dir) none) key
        (some (content after.toDisk fresh)) := by
  have shape := changed.slots_eq
  have represents := fileMap_represents keyed.unique
  have stored := findFile_slots found
  rw [slot_of_used used, short.2] at shape
  have unique : Unique (slots after) := by
    rw [shape]
    apply keyed.unique.replace
    intro j value different held
    rcases absent with rfl | missing
    · exact different (keyed.unique j idx _ _ _ held stored)
    · exact represents.map_eq_none.mp missing j value held
  refine ⟨⟨changed.valid, changed.terminated keyed.terminated (fun _ => short.1), unique⟩, ?_⟩
  apply (fileMap_represents unique).unique_map
  rw [shape]
  exact represents.replace keyed.unique stored absent

theorem Changed.fill {key : Key} (changed : Changed fs idx fresh after) (keyed : Keyed fs)
    (free : findFreeSlot fs.files = some idx) (used : fresh.used = true)
    (short : fresh.Terminated ∧ fresh.key = key) (absent : fileMap fs key = none) :
    Keyed after ∧
      fileMap after = Function.update (fileMap fs) key (some (content after.toDisk fresh)) := by
  have shape := changed.slots_eq
  have represents := fileMap_represents keyed.unique
  rw [slot_of_used used, short.2] at shape
  have unique : Unique (slots after) := by
    rw [shape]
    apply keyed.unique.replace
    intro j value _
    exact represents.map_eq_none.mp absent j value
  refine ⟨⟨changed.valid, changed.terminated keyed.terminated (fun _ => short.1), unique⟩, ?_⟩
  apply (fileMap_represents unique).unique_map
  rw [shape]
  exact represents.fill (slot_of_unused (findFreeSlot_some free)) absent

/-- An entry that stays unused does not show in the map. -/
theorem Keyed.same (keyed : Keyed fs) (valid : Valid after)
    (same : slots after = slots fs) (terminated : ∀ i, (after.files i).used = true → (after.files i).Terminated) :
    Keyed after ∧ fileMap after = fileMap fs :=
  ⟨⟨valid, terminated, same ▸ keyed.unique⟩, by rw [fileMap, fileMap, same]⟩

theorem Keyed.idle (keyed : Keyed fs) (valid : Valid after) (disk : after.toDisk = fs.toDisk)
    (files : after.files = fs.files) : Keyed after ∧ fileMap after = fileMap fs := by
  apply keyed.same valid
  · funext i
    rw [slots, slots, disk, files]
  · rw [files]
    exact keyed.terminated

end Table

section Commands

/-- How a command relates the map of the state before it to the map after it. It is
refused exactly when something stands against it, and it finds the disk full
exactly when the new content takes more blocks than there are. -/
structure Refines (fs : FileSystem) (keys : List UInt8) (op : FsOp) (report : Report) (after : FileSystem) :
    Prop where
  done : report = .done → ∃ typed, op.Accumulates fs keys typed ∧
    op.needs (fileMap fs) typed ≤ op.available fs ∧ fileMap after = op.apply (fileMap fs) typed
  full : report = .diskFull → ∃ typed, op.Accumulates fs keys typed ∧
    op.available fs < op.needs (fileMap fs) typed ∧ fileMap after = op.spoil (fileMap fs)
  refused : report ≠ .done → report ≠ .diskFull → fileMap after = fileMap fs
  granted : report = .done ∨ report = .diskFull ↔ op.Granted (fileMap fs) keys

theorem FsOp.apply_other {map : FileMap} {typed : List UInt8} {key : Key} (untouched : ¬ op.Touches key) :
    op.apply map typed key = map key := by
  cases op with
  | read => rfl
  | write | edit | delete | copy => exact Function.update_of_ne untouched _ _
  | rename =>
      simp only [FsOp.Touches, not_or] at untouched
      rw [FsOp.apply, Function.update_of_ne untouched.2, Function.update_of_ne untouched.1]

theorem FsOp.spoil_other {map : FileMap} {key : Key} (untouched : ¬ op.Touches key) : op.spoil map key = map key := by
  cases op with
  | read | delete | rename | copy => rfl
  | write | edit => exact Function.update_of_ne untouched _ _

/-- No command changes the value of a key that it does not name. -/
theorem Refines.others {key : Key} (refines : Refines fs keys op report after) (untouched : ¬ op.Touches key) :
    fileMap after key = fileMap fs key := by
  by_cases done : report = .done
  · obtain ⟨typed, _, _, map⟩ := refines.done done
    rw [map, FsOp.apply_other untouched]
  · by_cases full : report = .diskFull
    · obtain ⟨typed, _, _, map⟩ := refines.full full
      rw [map, FsOp.spoil_other untouched]
    · rw [refines.refused done full]

theorem FsOp.proceeds_iff (keyed : Keyed fs) : op.Proceeds fs keys ↔ op.Granted (fileMap fs) keys := by
  have finds (name dir : CString) : (∃ idx, findFile fs.files name dir = some idx) ↔
      ∃ value, fileMap fs (keyOf name dir) = some value := findFile_iff keyed.unique
  have misses (name dir : CString) : findFile fs.files name dir = none ↔ fileMap fs (keyOf name dir) = none :=
    findFile_none_iff keyed.unique
  have slots := findFreeSlot_iff keyed.unique
  cases op with
  | write | read | edit | rename | copy => simp only [FsOp.Proceeds, FsOp.Granted, finds, misses, slots]
  | delete =>
      simp only [FsOp.Proceeds, FsOp.Granted, finds]
      rfl

theorem Refines.of_done {typed : List UInt8} (granted : op.Granted (fileMap fs) keys)
    (accumulated : op.Accumulates fs keys typed) (room : op.needs (fileMap fs) typed ≤ op.available fs)
    (map : fileMap after = op.apply (fileMap fs) typed) : Refines fs keys op .done after where
  done _ := ⟨typed, accumulated, room, map⟩
  full isFull := by cases isFull
  refused notDone := absurd rfl notDone
  granted := iff_of_true (.inl rfl) granted

theorem Refines.of_full {typed : List UInt8} (granted : op.Granted (fileMap fs) keys)
    (accumulated : op.Accumulates fs keys typed) (short : op.available fs < op.needs (fileMap fs) typed)
    (map : fileMap after = op.spoil (fileMap fs)) : Refines fs keys op .diskFull after where
  done isDone := by cases isDone
  full _ := ⟨typed, accumulated, short, map⟩
  refused _ notFull := absurd rfl notFull
  granted := iff_of_true (.inr rfl) granted

theorem available_write (found : findFile fs.files name dir = some idx) :
    (FsOp.write name dir).available fs = (freeBlocks (released fs idx).fat).card := by
  rw [FsOp.available, found, Option.elim_some]

theorem available_new (absent : findFile fs.files name dir = none) :
    (FsOp.write name dir).available fs = (freeBlocks fs.fat).card := by
  rw [FsOp.available, absent, Option.elim_none]

theorem available_edit (found : findFile fs.files name dir = some idx) :
    (FsOp.edit name dir).available fs = (freeBlocks (released fs idx).fat).card := by
  rw [FsOp.available, found, Option.elim_some]

theorem Keyed.found_entry (keyed : Keyed fs) (found : findFile fs.files name dir = some idx) :
    (fs.files idx).Terminated ∧ (fs.files idx).key = keyOf name dir :=
  ⟨keyed.terminated idx (findFile_some found).1, (slots_eq_some.mp (findFile_slots found)).2.1⟩

theorem Keyed.rewritten (keyed : Keyed fs) (found : findFile fs.files name dir = some idx)
    (changed : Changed fs idx fresh after) (used : fresh.used = true)
    (sameName : fresh.name = (fs.files idx).name) (sameDir : fresh.dir = (fs.files idx).dir) :
    Keyed after ∧
      fileMap after = Function.update (fileMap fs) (keyOf name dir) (some (content after.toDisk fresh)) := by
  obtain ⟨terminated, key⟩ := keyed.found_entry found
  obtain ⟨short, sameKey⟩ := terminated.same_key sameName sameDir
  have replaced := changed.replace keyed found used ⟨short, sameKey.trans key⟩ (.inl rfl)
  rwa [Function.update_idem] at replaced

/-- What `fs_edit` stores is the old content with the new lines behind it. -/
theorem appended_bytes {tmp : Buffer tmpSize} {input : Input} (layout : Layout fs.fat fs.files chain)
    (used : (fs.files idx).used = true)
    (copied : copyChain fs.toDisk fs.editTmp 0 (fs.files idx).firstBlock (fs.files idx).size = some tmp)
    (collected : collectLines (.zeros 256) tmp (fs.files idx).size keys = .ok input) :
    input.bytes = content fs.toDisk (fs.files idx) ++ input.accumulated (fs.files idx).size := by
  have owned := layout.owned idx used
  obtain ⟨added, spec⟩ := collectLines_ok collected owned.size_le
  have bytes : input.bytes = content fs.toDisk (fs.files idx) ++ added := by
    rw [← owned.copied_bytes copied]
    exact spec.bytes
  rw [Input.accumulated, bytes, ← owned.content_length, List.drop_left]

theorem Effect.refines (effect : Effect fs keys op report after) (keyed : Keyed fs) (within : op.Within) :
    Keyed after ∧ Refines fs keys op report after := by
  obtain ⟨chain, layout⟩ := keyed.valid
  have valid : Valid after := effect.layout layout
  have granted := effect.proceeds_iff.trans (FsOp.proceeds_iff keyed)
  cases effect with
  | refused idle failed notFull disk files =>
      obtain ⟨next, map⟩ := keyed.idle valid disk files
      exact ⟨next, fun isDone => absurd isDone failed, fun isFull => absurd isFull notFull, fun _ _ => map, granted⟩
  | printed _ _ disk files =>
      obtain ⟨next, map⟩ := keyed.idle valid disk files
      exact ⟨next, .of_done (granted.mp (.inl rfl)) rfl (Nat.zero_le _) map⟩
  | overwritten _ found collected stored files =>
      have used := (findFile_some found).1
      obtain ⟨next, map⟩ := keyed.rewritten found ⟨valid, files, layout.content_rewrite used stored⟩ used rfl rfl
      rw [stored.content_eq rfl (collected_length collected (Nat.zero_le _))] at map
      exact ⟨next, .of_done (granted.mp (.inl rfl)) ⟨_, collected, rfl⟩ (available_write found ▸ stored.enough) map⟩
  | overwriteFailed _ found collected exhausted files =>
      have used := (findFile_some found).1
      obtain ⟨next, map⟩ :=
        Changed.clear ⟨valid, files, layout.content_rewriteFailed used exhausted⟩ keyed found rfl
      exact ⟨next, .of_full (granted.mp (.inr rfl)) ⟨_, collected, rfl⟩ (available_write found ▸ exhausted.short) map⟩
  | created _ absent free collected stored files =>
      obtain ⟨next, map⟩ := Changed.fill
        ⟨valid, files, fun i _ usedI => layout.content_store stored usedI⟩ keyed free rfl
        (terminated_of_fields within rfl rfl) (findFile_absent keyed.unique absent)
      rw [stored.content_eq rfl (collected_length collected (Nat.zero_le _))] at map
      exact ⟨next, .of_done (granted.mp (.inl rfl)) ⟨_, collected, rfl⟩ (available_new absent ▸ stored.enough) map⟩
  | createFailed _ absent free collected exhausted files =>
      have changed : Changed fs _ _ after :=
        ⟨valid, files, fun i _ usedI => layout.content_exhaust exhausted usedI⟩
      have same : slots after = slots fs := by
        rw [changed.slots_eq, slot_of_unused rfl, Function.update_eq_self_iff]
        exact (slot_of_unused (findFreeSlot_some free)).symm
      obtain ⟨next, map⟩ := keyed.same valid same (changed.terminated keyed.terminated (fun used => by cases used))
      refine ⟨next, .of_full (granted.mp (.inr rfl)) ⟨_, collected, rfl⟩ (available_new absent ▸ exhausted.short) ?_⟩
      rw [map, FsOp.spoil, eq_comm, Function.update_eq_self_iff]
      exact (findFile_absent keyed.unique absent).symm
  | appended _ found copied collected stored files =>
      have used := (findFile_some found).1
      have value := findFile_value keyed.unique found
      have bytes := appended_bytes layout used copied collected
      obtain ⟨next, map⟩ := keyed.rewritten found ⟨valid, files, layout.content_rewrite used stored⟩ used rfl rfl
      have enough := stored.enough
      rw [stored.content_eq rfl (collected_length collected (layout.owned _ used).size_le), bytes] at map
      rw [bytes, List.length_append, ← available_edit found] at enough
      refine ⟨next, .of_done (granted.mp (.inl rfl)) ⟨_, _, _, found, copied, collected, rfl⟩ ?_ ?_⟩
      · rw [FsOp.needs, value]
        exact enough
      · rw [map, FsOp.apply, value, Option.map_some]
  | appendFailed _ found copied collected exhausted files =>
      have used := (findFile_some found).1
      have value := findFile_value keyed.unique found
      have short := exhausted.short
      obtain ⟨next, map⟩ :=
        keyed.rewritten found ⟨valid, files, layout.content_rewriteFailed used exhausted⟩ used rfl rfl
      rw [appended_bytes layout used copied collected, List.length_append, ← available_edit found] at short
      refine ⟨next, .of_full (granted.mp (.inr rfl)) ⟨_, _, _, found, copied, collected, rfl⟩ ?_ ?_⟩
      · rw [FsOp.needs, value]
        exact short
      · rw [map, FsOp.spoil, content, readChain_nil (by simp)]
  | deleted _ found _ _ disk files =>
      have used := (findFile_some found).1
      obtain ⟨next, map⟩ := Changed.clear
        ⟨valid, files, fun i different usedI => by rw [disk]; exact layout.content_release used different usedI⟩
        keyed found rfl
      exact ⟨next, .of_done (granted.mp (.inl rfl)) rfl (Nat.zero_le _) map⟩
  | renamed _ found absent disk files =>
      have used := (findFile_some found).1
      have value := findFile_value keyed.unique found
      have missing := findFile_absent keyed.unique absent
      obtain ⟨terminated, key⟩ := keyed.found_entry found
      obtain ⟨next, map⟩ := Changed.replace ⟨valid, files, fun i _ _ => by rw [disk]⟩ keyed found used
        (terminated.renamed within.2 (congrArg Key.dir key)) (.inr missing)
      rw [disk] at map
      refine ⟨next, .of_done (granted.mp (.inl rfl)) rfl (Nat.zero_le _) ?_⟩
      rw [map, FsOp.apply, value]
      rfl
  | copied _ found absent free copied stored files =>
      have value := findFile_value keyed.unique found
      have missing := findFile_absent keyed.unique absent
      have owned := layout.owned _ (findFile_some found).1
      have enough := stored.enough
      obtain ⟨next, map⟩ := Changed.fill
        ⟨valid, files, fun i _ usedI => layout.content_store stored usedI⟩ keyed free rfl
        (terminated_of_fields within.2 rfl rfl) missing
      rw [stored.content_eq rfl (by exact owned.copied_length copied), owned.copied_bytes copied] at map
      rw [owned.copied_bytes copied] at enough
      refine ⟨next, .of_done (granted.mp (.inl rfl)) rfl ?_ ?_⟩
      · rw [FsOp.needs, value]
        exact enough
      · rw [map, FsOp.apply, value]
  | copyFailed _ found _ _ copied exhausted files =>
      have value := findFile_value keyed.unique found
      have owned := layout.owned _ (findFile_some found).1
      have short := exhausted.short
      have same : slots after = slots fs := by
        funext i
        rw [slots, slots, files]
        cases used : (fs.files i).used with
        | false => rw [slot_of_unused used, slot_of_unused used]
        | true => rw [slot_of_used used, slot_of_used used, layout.content_exhaust exhausted used]
      obtain ⟨next, map⟩ := keyed.same valid same (by rw [files]; exact keyed.terminated)
      rw [owned.copied_bytes copied] at short
      refine ⟨next, .of_full (granted.mp (.inr rfl)) rfl ?_ map⟩
      rw [FsOp.needs, value]
      exact short

theorem fsRead_value (keyed : Keyed fs) (nonempty : name.chars ≠ []) {value : List UInt8}
    (held : fileMap fs (keyOf name dir) = some value) :
    fsRead fs name dir keys = .ok ⟨fs, .done, keys, fileScreen name value⟩ := by
  have given : ¬ kstrlen name.memory = some 0 := (kstrlen_eq_zero name).not.mpr nonempty
  cases found : findFile fs.files name dir with
  | none => cases held.symm.trans (findFile_absent keyed.unique found)
  | some idx =>
      obtain ⟨chain, layout⟩ := keyed.valid
      have owned := layout.owned idx (findFile_some found).1
      cases held.symm.trans (findFile_value keyed.unique found)
      have empty : ((fs.files idx).firstBlock = fatEnd ∨ (fs.files idx).size = 0) ↔
          content fs.toDisk (fs.files idx) = [] := by
        rw [owned.empty_iff, or_self, ← List.length_eq_zero_iff, owned.content_length]
      simp only [fsRead, given, if_false, found, empty, emitChain_eq, pure, Except.pure, fileScreen]
      rfl

end Commands

theorem keyed_fsInit (boot : FileSystem) : Keyed (fsInit boot) := by
  refine ⟨valid_fsInit boot, ?_, ?_⟩
  · intro i used
    simp [fsInit] at used
  · intro i j key value other stored
    exact absurd (slots_eq_some.mp stored).1 (by simp [fsInit])

theorem fileMap_fsInit (boot : FileSystem) : fileMap (fsInit boot) = fun _ => none := by
  funext key
  apply (fileMap_represents (keyed_fsInit boot).unique).map_eq_none.mpr
  intro i value stored
  cases (slots_eq_some.mp stored).1

/-- A copy that nothing stands against is made when the blocks suffice. -/
theorem FsStep.copies {src dst : CString} (keys : List UInt8) (keyed : Keyed fs) (within : (FsOp.copy src dst dir).Within)
    (granted : (FsOp.copy src dst dir).Granted (fileMap fs) keys)
    (room : (FsOp.copy src dst dir).needs (fileMap fs) [] ≤ (freeBlocks fs.fat).card) :
    ∃ after, FsStep fs ⟨.copy src dst dir, keys, .done⟩ after := by
  obtain ⟨chain, layout⟩ := keyed.valid
  obtain ⟨given, ⟨idx, found⟩, absent, slot, free⟩ := (FsOp.proceeds_iff keyed).mpr granted
  obtain ⟨tmp, copied, _⟩ := (layout.owned idx (findFile_some found).1).copyChain_exists fs.copyTmp
  obtain ⟨outcome, run, reported⟩ := fsCopy_returns keys given.1 given.2 found absent free copied
  obtain ⟨_, refines⟩ := (fsCopy_effect run).refines keyed within
  refine ⟨outcome.fs, outcome, run, rfl, reported.resolve_right ?_⟩
  intro full
  obtain ⟨typed, rfl, short, _⟩ := refines.full full
  exact absurd room (Nat.not_le_of_lt short)

theorem sample_typed {input : Input} {tmp : Buffer tmpSize} {rest : List UInt8}
    (collected : collectLines (.zeros 256) tmp 0 (typedText [[120]] ++ (terminator.chars ++ newline :: rest)) =
      .ok input) : input.bytes = [120, newline] := by
  obtain ⟨other, again, _, spec⟩ := collectLines_verbatim (.zeros 256) tmp 0 rest
    (show ∀ text ∈ [[120]], Verbatim text by simpa using sample_verbatim) (by decide)
  cases collected.symm.trans again
  simpa [Input.bytes, typedText] using spec.bytes

theorem roomy_single {map : FileMap} {key : Key} (others : ∀ other, other ≠ key → map other = none) : Roomy map := by
  have few : {key | map key ≠ none} ⊆ {key} := by
    intro other held
    by_contra different
    exact held (others other different)
  refine Nat.lt_of_le_of_lt (Set.ncard_le_ncard few) ?_
  rw [Set.ncard_singleton]
  decide

end DugOS.Fs
