import DugOS.Boot.Kmain
import Mathlib.Data.List.Infix

namespace DugOS.Boot

open X86 Data Interrupts Vga

/-! `cmd_shutdown` of `shell.c`.

It gives the chips back to the BIOS while interrupts are still on. ICW1 clears the
mask registers, so between the last initialization word and the write that
masks all lines any request goes through, with the vectors of the BIOS.
-/

section Source

/-- `boot_image` of `shell.c`. -/
def bootImage : List (Int × String) :=
  [(-4, "HARDWARE"), (-3, "IDLE"), (-2, "CLOCK"), (-1, "SYSTEM"), (0, "PM"), (1, "FS"), (2, "TTY"), (3, "INIT")]

/-- The loop over `boot_image`, which skips the hardware and prints a number without
its sign. -/
def stopProcesses : List Print :=
  (bootImage.filter (·.1 ≠ -4)).flatMap fun proc =>
    [.write "  [kernel]   -> stopping ", .write proc.2, .write " (proc ",
      .dec (if proc.1 < 0 then UInt32.ofNat (-proc.1).toNat else UInt32.ofNat proc.1.toNat), .writeln ")"]

/-- `VGA_LIGHT_CYAN` is 11. -/
def farewell : List Print :=
  [.writeln "", .setColor 11 0,
    .writeln "  +----------------------------------------------------------+",
    .writeln "  |                   DugOS Shutdown                         |",
    .writeln "  +----------------------------------------------------------+",
    .setColor 15 0, .writeln "",
    .writeln "  [kernel] Sending SIGKSTOP to all system processes..."] ++ stopProcesses ++
  [.writeln "  [kernel] Flushing file system buffers ... OK",
    .writeln "  [kernel] Stopping clock task          ... OK",
    .writeln "  [kernel] Masking all hardware IRQs    ... OK"]

def picRestoreWrites : List (Port × UInt8) :=
  initWrites 0x08 0x70 ++ [(.data .master, 0xFF), (.data .slave, 0xFF)]

def goodbye : List Print :=
  [.writeln "  [kernel] intr_init: restoring BIOS defaults ... OK", .writeln "",
    .writeln "  DugOS has shut down. Goodbye, dug.", .writeln ""]

/-- `cmd_shutdown` up to the loop of `hlt` at its end. -/
def cmdShutdown : List Deed :=
  prints farewell ++ (picRestoreWrites.map .outb ++ (prints goodbye ++
    [.cli, .power 0x604 0x00, .power 0xB004 0x00]))

end Source

/-- Writes to the data port of a chip. -/
def Deed.sends (chip : Chip) : Deed → Bool
  | .outb write => write.1 = .data chip
  | _ => false

/-- The chip of the line, and the master in any case, have got their initialization
words, but the master has not got its mask. -/
def Window (front : List Deed) (line : Fin 16) : Prop :=
  front.countP (Deed.sends .master) = 3 ∧ (8 ≤ line.val → front.countP (Deed.sends .slave) = 3)

variable {buf : Buffer 11} {pics : Pics} {front : List Deed} {line : Fin 16} {n : Nat}

section Chips

theorem send_picRestore (pics : Pics) : send pics picRestoreWrites = picRestore pics :=
  rfl

/-- The chips after `n` writes of `pic_restore`. -/
def restoring (pics : Pics) (n : Nat) : Pics :=
  send pics (picRestoreWrites.take n)

theorem restoring_busy (pics : Pics) (begun : 1 ≤ n) (short : n ≤ 12) :
    (restoring pics n .master).stage ≠ .ready := by
  interval_cases n <;> exact nofun

theorem restoring_master (pics : Pics) (begun : 13 ≤ n) (short : n ≤ 16) :
    restoring pics n .master = ⟨0, 0x08, .ready⟩ := by
  interval_cases n <;> rfl

theorem restoring_slave (pics : Pics) (begun : 13 ≤ n) (short : n ≤ 16) :
    restoring pics n .slave = if n < 15 then ⟨0, 0x70, .icw4⟩ else ⟨0, 0x70, .ready⟩ := by
  interval_cases n <;> rfl

theorem restoring_masked (pics : Pics) (ended : 17 ≤ n) (most : n ≤ 18) : (restoring pics n .master).mask = 0xFF := by
  interval_cases n <;> rfl

/-- With the lines of the master those of the slave are masked, too. -/
theorem restoring_closed (pics : Pics) (ended : 17 ≤ n) (most : n ≤ 18) (line : Fin 16) :
    ¬ Forwards (restoring pics n) line := by
  intro forwards
  have masked := restoring_masked pics ended most
  by_cases upper : 8 ≤ line.val
  · have cascade := (forwards.2.2 upper).2
    rw [readMask, masked] at cascade
    cases cascade
  · have all : ∀ bit : Fin 8, (0xFF : UInt8).toNat.testBit bit = true := by decide
    have owner : chipOf line = .master := if_pos (by omega)
    have closed := forwards.2.1
    rw [maskBit, readMask, owner, masked, all ⟨line % 8, Nat.mod_lt _ (by decide)⟩] at closed
    cases closed

theorem maskBit_open {chip : Chip} (owner : chipOf line = chip) (unmasked : (pics chip).mask = 0) :
    maskBit pics line = false := by
  rw [maskBit, readMask, owner, unmasked]
  exact Nat.zero_testBit _

/-- Behind its last initialization word a chip passes on every line. -/
theorem restoring_opens (pics : Pics) (late : 13 ≤ n) (inside : n ≤ 16) (upper : 8 ≤ line.val → 15 ≤ n) :
    Forwards (restoring pics n) line := by
  have master := restoring_master pics late inside
  have slave := restoring_slave pics late inside
  by_cases lower : line.val < 8
  · have owner : chipOf line = .master := if_pos lower
    exact ⟨by rw [master], maskBit_open owner (by rw [master]), by omega⟩
  · have owner : chipOf line = .slave := if_neg lower
    have ready : ¬ n < 15 := by omega
    rw [if_neg ready] at slave
    refine ⟨by rw [master], maskBit_open owner (by rw [slave]), ?_⟩
    intro _
    exact ⟨by rw [slave], by rw [readMask, master]; rfl⟩

theorem restoring_vector (pics : Pics) (late : 13 ≤ n) (inside : n ≤ 16) (upper : 8 ≤ line.val → 15 ≤ n) :
    vectorOf (restoring pics n) line = if line.val < 8 then 8 + line.val else 104 + line.val := by
  have bound := line.isLt
  by_cases lower : line.val < 8
  · have owner : chipOf line = .master := if_pos lower
    rw [vectorOf, owner, restoring_master pics late inside, if_pos lower]
    change 8 + line.val % 8 = _
    omega
  · have owner : chipOf line = .slave := if_neg lower
    have ready : ¬ n < 15 := by omega
    rw [vectorOf, owner, restoring_slave pics late inside, if_neg ready, if_neg lower]
    change 112 + line.val % 8 = _
    omega

/-- A line is passed on with a vector that is not its own exactly in the window. -/
theorem restoring_window (remapped : Remapped pics) (most : n ≤ 18) (line : Fin 16) :
    Forwards (restoring pics n) line ∧ vectorOf (restoring pics n) line ≠ 32 + line ↔
      (13 ≤ n ∧ n ≤ 16) ∧ (8 ≤ line.val → 15 ≤ n) := by
  constructor
  · rintro ⟨forwards, other⟩
    rcases Nat.eq_zero_or_pos n with none | some
    · subst none
      exact absurd (remapped.vectorOf line) other
    · have late : 13 ≤ n := by
        by_contra early
        exact restoring_busy pics some (by omega) forwards.1
      have inside : n ≤ 16 := by
        by_contra ended
        exact restoring_closed pics (by omega) most line forwards
      refine ⟨⟨late, inside⟩, ?_⟩
      intro upper
      by_contra busy
      have ready := (forwards.2.2 upper).1
      rw [restoring_slave pics late inside, if_pos (by omega)] at ready
      cases ready
  · rintro ⟨⟨late, inside⟩, upper⟩
    refine ⟨restoring_opens pics late inside upper, ?_⟩
    rw [restoring_vector pics late inside upper]
    split <;> omega

end Chips

section Processor

variable {layout : Layout} {program : Program} {system : System}

/-- A request of a line that arrives as an exception. The stubs of some exceptions
take the word on top of the stack for an error code, and read the others one
place off. -/
structure Misreported (cpu : Processor) (program : Program) (system : System) (exception : Fin 32) (r : Regs) : Prop where
  reaches : ∃ gate entered entry rest, system.deliver cpu exception none = some (gate, entered) ∧
    execute cpu (program.codeAt gate.offset) entered.machine = .called .isrCommonHandler entry rest ∧
    readRegs entry.mem (load32 entry.mem (entry.regs .esp + 4)) = r
  vector : r.vector = BitVec.ofNat 32 exception
  errCode : r.errCode = if PushesErrorCode exception then system.machine.eip else 0
  eip : r.eip = if PushesErrorCode exception then system.machine.selectorWord cpu .cs else system.machine.eip

theorem Trapping.misreports (standing : Trapping layout program 76 system) (cpu : Processor) (vector : Fin 32) :
    ∃ r, Misreported cpu program system vector r := by
  have exceptional : stubFor vector = some (.isr vector) := dif_pos vector.isLt
  let gate : Gate := ⟨0x08, program.address (.isr vector)⟩
  let common := runOps cpu (system.machine.interrupt cpu gate none) (isrStubs.get vector)
  let pushed : List Word := if PushesErrorCode vector then [] else [0]
  have stack : common.Stack (BitVec.ofNat 32 vector :: (pushed ++
      [system.machine.eip, system.machine.selectorWord cpu .cs, system.machine.eflags])) := by
    have start : (Op.cli.exec cpu (system.machine.interrupt cpu gate none)).Stack
        [system.machine.eip, system.machine.selectorWord cpu .cs, system.machine.eflags] :=
      (Machine.interrupt_stack cpu gate none system.machine).of_eq rfl rfl
    by_cases pushes : PushesErrorCode vector
    · simp only [common, pushed, isrStubs_get, if_pos pushes]
      exact start.push (by simp) _
    · simp only [common, pushed, isrStubs_get, if_neg pushes]
      exact (start.push (by simp) 0).push (by simp) _
  have room : (BitVec.ofNat 32 vector :: (pushed ++
      [system.machine.eip, system.machine.selectorWord cpu .cs, system.machine.eflags])).length ≤ 16 := by
    simp only [pushed]
    split <;> simp
  obtain ⟨entry, rest, frame, calls, saves, stored⟩ :=
    isrCommon_calls cpu (program.returnTo (.isr vector)) stack room
  obtain ⟨gs, fs, es, ds, rfl, _⟩ := saves
  let r := readRegs entry.mem (load32 entry.mem (entry.regs .esp + 4))
  have oneOff : r.errCode = (if PushesErrorCode vector then system.machine.eip else 0) ∧
      r.eip = if PushesErrorCode vector then system.machine.selectorWord cpu .cs else system.machine.eip := by
    by_cases pushes : PushesErrorCode vector
    · simp only [pushed, if_pos pushes] at stored ⊢
      exact ⟨stored.get rfl, stored.get rfl⟩
    · simp only [pushed, if_neg pushes] at stored ⊢
      exact ⟨stored.get rfl, stored.get rfl⟩
  refine ⟨r, ⟨gate, { system with machine := system.machine.interrupt cpu gate none }, entry, rest, ?_, ?_, rfl⟩,
    stored.get rfl, oneOff.1, oneOff.2⟩
  · rw [standing.tables.deliver standing.kernel, exceptional]
    rfl
  · rw [program.linked]
    exact (execute_ops _ _ _).trans calls

end Processor

section Points

variable {core : Core} {vga : VgaState} {terminal : Terminal}

/-- Deeds come to their end on every screen. -/
theorem acts_total (buf : Buffer 11) (deeds : List Deed) (station : Station) (shows : Shows station.vga terminal) :
    ∃ now shown, acts buf deeds station = some now ∧ Shows now.vga shown := by
  induction deeds generalizing station terminal with
  | nil => exact ⟨station, terminal, rfl, shows⟩
  | cons deed deeds ih =>
      have acted : ∃ next shown, deed.act buf station = some next ∧ Shows next.vga shown := by
        cases deed with
        | prints print =>
            obtain ⟨after, shown, draws, result⟩ := print.draw_shows buf shows
            exact ⟨{ station with vga := after }, shown, by simp only [Deed.act, draws, Option.map_some], result⟩
        | dirInit =>
            exact ⟨{ station with dir := rootTable station.dir }, terminal, by simp only [Deed.act, dirInit_rootTable], shows⟩
        | gdtInit | idtInit | outb write | register irq handler | fsInit | sti | cli | power port value =>
            exact ⟨_, terminal, rfl, shows⟩
      obtain ⟨next, drawn, does, shown⟩ := acted
      obtain ⟨now, final, run, result⟩ := ih next shown
      refine ⟨now, final, ?_, result⟩
      rw [acts_cons, does, Option.bind_some, run]

theorem written_prints (calls : List Print) : (prints calls).filterMap Deed.written = [] := by
  induction calls with
  | nil => rfl
  | cons print calls ih => exact ih

theorem written_outb (writes : List (Port × UInt8)) : (writes.map Deed.outb).filterMap Deed.written = writes := by
  induction writes with
  | nil => rfl
  | cons write writes ih => exact congrArg (write :: ·) ih

theorem countP_sends (chip : Chip) (deeds : List Deed) :
    deeds.countP (Deed.sends chip) = (deeds.filterMap Deed.written).countP fun write => write.1 = .data chip := by
  rw [List.countP_filterMap]
  apply List.countP_congr
  intro deed _
  cases deed <;> rfl

/-- What comes in front of `cli`. -/
def beforeCli : List Deed :=
  prints farewell ++ (picRestoreWrites.map .outb ++ prints goodbye)

theorem cmdShutdown_split : cmdShutdown = beforeCli ++ [.cli, .power 0x604 0x00, .power 0xB004 0x00] := by
  simp only [cmdShutdown, beforeCli, List.append_assoc]

theorem beforeCli_writes : beforeCli.filterMap Deed.written = picRestoreWrites := by
  simp only [beforeCli, List.filterMap_append, written_prints, written_outb, List.nil_append, List.append_nil]

/-- Where a point of `cmd_shutdown` stands among the writes of `pic_restore`. -/
theorem shutdown_point (cut : front <+: cmdShutdown) :
    ∃ n ≤ 18, front.filterMap Deed.written = picRestoreWrites.take n ∧
      (n ≤ 16 → front.foldl Deed.flag true = true) := by
  have writes : cmdShutdown.filterMap Deed.written = picRestoreWrites := by
    rw [cmdShutdown_split, List.filterMap_append, beforeCli_writes]
    rfl
  have part : front.filterMap Deed.written <+: picRestoreWrites := writes ▸ cut.filterMap Deed.written
  refine ⟨(front.filterMap Deed.written).length, part.length_le, List.prefix_iff_eq_take.mp part, ?_⟩
  intro short
  have whole : beforeCli <+: cmdShutdown := cmdShutdown_split ▸ List.prefix_append _ _
  rcases List.prefix_or_prefix_of_prefix cut whole with early | late
  · apply flag_kept
    intro deed member
    have inside := early.subset member
    cases deed with
    | cli => simp [beforeCli, prints] at inside
    | prints | gdtInit | idtInit | outb | register | fsInit | dirInit | sti | power => rfl
  · have all := (late.filterMap Deed.written).length_le
    rw [beforeCli_writes] at all
    change 18 ≤ _ at all
    omega

/-- The master has got its mask. -/
def Closed (front : List Deed) : Prop :=
  4 ≤ front.countP (Deed.sends .master)

theorem closed_iff (point : front.filterMap Deed.written = picRestoreWrites.take n) (most : n ≤ 18) :
    Closed front ↔ 17 ≤ n := by
  have master : ∀ n : Fin 19, 4 ≤ (picRestoreWrites.take n).countP (fun write => write.1 = Port.data .master) ↔
      17 ≤ n.val := by decide
  rw [Closed, countP_sends, point]
  exact master ⟨n, by omega⟩

/-- The window in terms of the writes. -/
theorem window_iff (point : front.filterMap Deed.written = picRestoreWrites.take n) (most : n ≤ 18) (line : Fin 16) :
    Window front line ↔ (13 ≤ n ∧ n ≤ 16) ∧ (8 ≤ line.val → 15 ≤ n) := by
  have master : ∀ n : Fin 19, (picRestoreWrites.take n).countP (fun write => write.1 = Port.data .master) = 3 ↔
      13 ≤ n.val ∧ n.val ≤ 16 := by decide
  have slave : ∀ n : Fin 19, (picRestoreWrites.take n).countP (fun write => write.1 = Port.data .slave) = 3 ↔
      15 ≤ n.val ∧ n.val ≤ 17 := by decide
  have small : n < 19 := by omega
  rw [Window, countP_sends, countP_sends, point]
  have masterHere := master ⟨n, small⟩
  have slaveHere := slave ⟨n, small⟩
  simp only at masterHere slaveHere
  rw [masterHere, slaveHere]
  omega

end Points

section Shutdown

variable {cpu : Processor} {layout : Layout} {program : Program} {system : System} {core : Core} {vga : VgaState}
  {terminal : Terminal}

/-- What the end of `cmd_shutdown` leaves. -/
theorem cmdShutdown_acts (buf : Buffer 11) (core : Core) (shows : Shows vga terminal) :
    ∃ after, acts buf cmdShutdown ⟨core, vga⟩ = some ⟨{ core with
      pics := picRestore core.pics
      interrupts := false
      power := core.power ++ [(0x604, 0x00), (0xB004, 0x00)] }, after⟩ := by
  have off : Acts buf [.cli, .power 0x604 0x00, .power 0xB004 0x00] fun core => { core with
      interrupts := false
      power := core.power ++ [(0x604, 0x00), (0xB004, 0x00)] } := by
    intro core vga terminal shows
    refine ⟨vga, terminal, ?_, shows⟩
    have joined : core.power ++ [(0x604, 0x00)] ++ [(0xB004, 0x00)] =
        core.power ++ [((0x604 : UInt16), (0x00 : UInt8)), (0xB004, 0x00)] := List.append_assoc ..
    dsimp only
    rw [← joined]
    rfl
  have restored := acts_writes buf picRestoreWrites
  simp only [send_picRestore] at restored
  have whole := (acts_prints buf farewell).append (restored.append ((acts_prints buf goodbye).append off))
  obtain ⟨after, _, run, _⟩ := whole core vga terminal shows
  exact ⟨after, run⟩

/-- At every point of `cmd_shutdown`, a line interrupts the kernel with a vector that is
not its own exactly in the window. A line of the master then enters the stub of
an exception, and the report of that exception is the last thing that happens; a
line of the slave finds no gate. Past the window, at every point, no line is passed
on, and the power switch is reached with interrupts off. -/
theorem shutdown_window (standing : Trapping layout program 76 system) (cpu : Processor) (buf : Buffer 11) (core : Core)
    (on : core.interrupts = true) (remapped : Remapped core.pics) (shows : Shows vga terminal) :
    (∀ front, front <+: cmdShutdown → ∃ now shown, acts buf front ⟨core, vga⟩ = some now ∧ Shows now.vga shown ∧
      ∀ line : Fin 16, (now.Takes line ∧ vectorOf now.pics line ≠ 32 + line ↔ Window front line) ∧
        (Window front line → 8 ≤ line.val → system.deliver cpu (vectorOf now.pics line) none = none) ∧
        (Window front line → line.val < 8 → ∃ (exception : Fin 32) (r : Regs),
          exception.val = 8 + line ∧ vectorOf now.pics line = exception ∧ Misreported cpu program system exception r ∧
          ∃ number code eip screen, isrCommonHandler buf r now.vga = some screen ∧
            Shows screen (Terminal.write { shown with color := 12 }
              (panicText number (exceptionName (UInt32.ofNat exception)) code eip)) ∧
            Denotes 10 number exception ∧ Denotes 16 code r.errCode.toNat ∧ Denotes 16 eip r.eip.toNat) ∧
        (Closed front → ¬ Forwards now.pics line)) ∧
    ∃ final, acts buf cmdShutdown ⟨core, vga⟩ = some final ∧ final.interrupts = false ∧
      (∀ line, ¬ Forwards final.pics line) ∧ final.power = core.power ++ [(0x604, 0x00), (0xB004, 0x00)] := by
  refine ⟨?_, ?_⟩
  · intro front cut
    obtain ⟨n, most, writes, flag⟩ := shutdown_point cut
    obtain ⟨now, shown, run, result⟩ := acts_total buf front ⟨core, vga⟩ shows
    obtain ⟨pics, interrupts⟩ := acts_spec run
    have here : now.pics = restoring core.pics n := by rw [pics, writes, restoring]
    refine ⟨now, shown, run, result, ?_⟩
    intro line
    have window := window_iff writes most line
    have misled := restoring_window remapped most line
    rw [Core.Takes, here]
    refine ⟨?_, ?_, ?_, ?_⟩
    · rw [window, ← misled]
      constructor
      · intro taken
        exact ⟨taken.1.2, taken.2⟩
      · intro passed
        have inside := misled.mp passed
        refine ⟨⟨?_, passed.1⟩, passed.2⟩
        rw [interrupts]
        exact (congrArg (front.foldl Deed.flag) on).trans (flag (by omega))
    · intro opened upper
      obtain ⟨⟨late, inside⟩, ready⟩ := window.mp opened
      have noGate : stubFor (104 + line.val) = none := by
        rw [stubFor, dif_neg (by omega), dif_neg (by omega)]
      rw [restoring_vector core.pics late inside ready, if_neg (by omega), standing.tables.deliver standing.kernel, noGate]
      rfl
    · intro opened lower
      obtain ⟨⟨late, inside⟩, ready⟩ := window.mp opened
      let exception : Fin 32 := ⟨8 + line, by omega⟩
      obtain ⟨r, misreported⟩ := standing.misreports cpu exception
      have report := isrCommonHandler_prints buf misreported.vector result
      refine ⟨exception, r, rfl, ?_, misreported, report⟩
      rw [restoring_vector core.pics late inside ready, if_pos lower]
    · intro closed
      exact restoring_closed core.pics ((closed_iff writes most).mp closed) most line
  · obtain ⟨after, run⟩ := cmdShutdown_acts buf core shows
    refine ⟨_, run, rfl, ?_, rfl⟩
    exact restoring_closed core.pics (show 17 ≤ 18 by decide) (by decide)

/-- As `kmain` leaves it. -/
def runningCore : Core :=
  { biosCore with pics := picUnmask (picInit biosCore.pics) 1, interrupts := true }

/-- A tick of the timer right behind the last initialization word of the master. -/
theorem timer_reported_as_double_fault : ∃ start front now r number code eip shown screen,
    vgaInit ⟨fun _ => 0, 0, 0, 0⟩ = some start ∧ front <+: cmdShutdown ∧
    acts (.zeros 11) front ⟨runningCore, start⟩ = some now ∧ now.Takes 0 ∧ vectorOf now.pics 0 = 8 ∧
    Misreported quietProcessor sampleProgram sampleSystem 8 r ∧ isrCommonHandler (.zeros 11) r now.vga = some screen ∧
    Shows screen (Terminal.write shown (panicText number (ascii "Double fault") code eip)) ∧
    Denotes 10 number 8 ∧ Denotes 16 code sampleSystem.machine.eip.toNat := by
  obtain ⟨start, begins, shows⟩ := vgaInit_shows ⟨fun _ => 0, 0, 0, 0⟩
  have remapped : Remapped runningCore.pics := (picInit_remapped biosCore.pics).calls [.unmask 1]
  let front := prints farewell ++ (picRestoreWrites.take 13).map .outb
  have cut : front <+: cmdShutdown := by
    refine ⟨(picRestoreWrites.drop 13).map .outb ++ (prints goodbye ++
      [.cli, .power 0x604 0x00, .power 0xB004 0x00]), ?_⟩
    simp only [front, cmdShutdown, List.append_assoc]
    rfl
  have window : Window front 0 := by
    rw [Window, countP_sends, List.filterMap_append, written_prints, written_outb]
    exact ⟨rfl, by simp⟩
  obtain ⟨points, _⟩ := shutdown_window (sampleSystem_trapping 76 (by decide) (by decide)) quietProcessor (.zeros 11)
    runningCore rfl remapped shows
  obtain ⟨now, shown, run, _, lines⟩ := points front cut
  obtain ⟨misled, _, reports, _⟩ := lines 0
  obtain ⟨exception, r, number, vector, misreported, text, code, eip, screen, draws, drawn, isNumber, isCode, _⟩ :=
    reports window (by decide)
  have eighth : exception = 8 := Fin.ext number
  subst eighth
  rw [misreported.errCode] at isCode
  exact ⟨start, front, now, r, text, code, eip, _, screen, begins, cut, run, (misled.mpr window).1, vector, misreported,
    draws, drawn, isNumber, isCode⟩

end Shutdown

end DugOS.Boot
