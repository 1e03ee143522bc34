import DugOS.Boot.Traps
import DugOS.Shell.Session

namespace DugOS.Boot

open Data Interrupts Vga

/-! `kmain` of `main.c`, which `boot.s` calls with interrupts off.

What the kernel does to the screen, to the interrupt controllers and to its own
tables is a list of deeds, in the order of the source. What a function reads
from a chip is written out at its place.
-/

/-- A call of the driver of the screen. -/
inductive Print where
  | init
  | setColor (fg bg : UInt8)
  | write (s : String)
  | writeln (s : String)
  | dec (n : UInt32)

/-- `buf` is what the stack holds when `vga_write_dec` starts. -/
def Print.draw (buf : Buffer 11) : Print → VgaState → Option VgaState
  | .init => vgaInit
  | .setColor fg bg => fun vga => some (vgaSetColor fg bg vga)
  | .write s => vgaWrite (literal s)
  | .writeln s => vgaWriteln (literal s)
  | .dec n => putNumeral (vgaWriteDec buf n)

/-- The functions that are registered for a line. -/
inductive Handler where
  | kbdIsr
deriving DecidableEq

inductive Deed where
  | prints (print : Print)
  -- up to the end of `gdt_flush` and of `idt_flush`
  | gdtInit
  | idtInit
  | outb (write : Port × UInt8)
  | register (irq : UInt8) (handler : Handler)
  | fsInit
  | dirInit
  | sti
  | cli
  -- a port that belongs to none of the chips
  | power (port : UInt16) (value : UInt8)

/-- Whether `gdt_init` and `idt_init` have run, the chips, the handlers, the tables of
the file system and of the directories, the interrupt flag, and what was written
to the power switch. -/
structure Core where
  gdt : Bool
  idt : Bool
  pics : Pics
  handlers : IrqHandlers Handler
  fs : Fs.FileSystem
  dir : Dir.DirState
  interrupts : Bool
  power : List (UInt16 × UInt8)

structure Station extends Core where
  vga : VgaState

def Deed.act (buf : Buffer 11) (station : Station) : Deed → Option Station
  | .prints print => (print.draw buf station.vga).map fun vga => { station with vga }
  | .gdtInit => some { station with gdt := true }
  | .idtInit => some { station with idt := true }
  | .outb write => some { station with pics := Interrupts.outb station.pics write.1 write.2 }
  | .register irq handler => some { station with handlers := irqRegister station.handlers irq (some handler) }
  | .fsInit => some { station with fs := Fs.fsInit station.fs }
  | .dirInit =>
      match Dir.dirInit station.dir with
      | .ok dir => some { station with dir }
      | .error _ => none
  | .sti => some { station with interrupts := true }
  | .cli => some { station with interrupts := false }
  | .power port value => some { station with power := station.power ++ [(port, value)] }

def acts (buf : Buffer 11) (deeds : List Deed) (station : Station) : Option Station :=
  deeds.foldlM (Deed.act buf) station

section Source

/-- `VGA_YELLOW` is 14. -/
def welcome : List Print :=
  [.setColor 14 0, .writeln "",
    .writeln "  +=================================================================+",
    .writeln "  |                                                                 |",
    .writeln "  |    ____  _   _   ____   ___   ____                             |",
    .writeln "  |   |  _ \\| | | | / ___| / _ \\ / ___|                            |",
    .writeln "  |   | | | | | | || |  _ | | | |\\___ \\                            |",
    .writeln "  |   | |_| | |_| || |_| || |_| | ___) |                           |",
    .writeln "  |   |____/ \\___/  \\____| \\___/ |____/                             |",
    .writeln "  |                                                                 |",
    .writeln "  |          O P E R A T I N G     S Y S T E M                    |",
    .writeln "  |                      v e r s i o n  1.0                        |",
    .writeln "  |                                                                 |",
    .writeln "  |   - - - - - - - - - - - - - - - - - - - - - - - - - - - - -   |",
    .writeln "  |      Built on MINIX 3.1.0 kernel  (Appendix B, line 07100)    |",
    .writeln "  |   - - - - - - - - - - - - - - - - - - - - - - - - - - - - -   |",
    .writeln "  |                                                                 |",
    .writeln "  |              [ Type  'help'  to begin ]                        |",
    .writeln "  |                                                                 |",
    .writeln "  +=================================================================+"]

/-- `VGA_LIGHT_GREEN` is 10. -/
def bootProcTable : List Print :=
  [.setColor 10 0, .write "  [kernel] proc_table: ", .dec (4 + 64), .writeln " slots cleared ... OK"]

def bootPrivTable : List Print :=
  [.setColor 10 0, .write "  [kernel] priv_table: ", .dec 32, .writeln " slots cleared ... OK"]

/-- The names in `image`. -/
def imageNames : List String :=
  ["HARDWARE", "IDLE", "CLOCK", "SYSTEM", "PM", "FS", "TTY", "INIT"]

def bootImageInit : List Print :=
  .setColor 10 0 ::
    (imageNames.flatMap fun name => [.write "  [kernel]   -> loaded  ", .write name, .writeln ""]) ++
    [.write "  [kernel] boot_image: ", .dec 8, .writeln " processes loaded  ... OK"]

def announce : List Print :=
  [.setColor 10 0, .writeln "  [kernel] DugOS v1.0 -- Built on MINIX 3.1.0 concepts",
    .writeln "  [kernel] Executing in 32-bit protected mode."]

/-- The writes that `pic_init` and `pic_restore` begin with. -/
def initWrites (offset1 offset2 : UInt8) : List (Port × UInt8) :=
  [(.cmd .master, icw1Init), (.post, 0), (.cmd .slave, icw1Init), (.post, 0),
    (.data .master, offset1), (.post, 0), (.data .slave, offset2), (.post, 0),
    (.data .master, 0x04), (.post, 0), (.data .slave, 0x02), (.post, 0),
    (.data .master, icw4Mode), (.post, 0), (.data .slave, icw4Mode), (.post, 0)]

def picInitWrites (pics : Pics) : List (Port × UInt8) :=
  initWrites 0x20 0x28 ++ [(.data .master, readMask pics .master), (.data .slave, readMask pics .slave)]

def picInitPrints : List Print :=
  [.setColor 10 0, .writeln "  >> PIC remapped (IRQ 0-7 -> 0x20, IRQ 8-15 -> 0x28)"]

/-- What `pic_unmask` writes for a line of the master. -/
def kbdInit (pics : Pics) : List Deed :=
  [.register 1 .kbdIsr, .outb (.data .master, readMask pics .master &&& (~~~ ((1 : UInt32) <<< 1)).toUInt8)]

def prints (calls : List Print) : List Deed :=
  calls.map .prints

/-- The status lines of `kmain` itself. -/
def gdtLoaded : List Print :=
  [.setColor 10 0, .writeln "  >> GDT loaded (5 entries)"]

def idtLoaded : List Print :=
  [.writeln "  >> IDT loaded (256 entries, 32 exceptions + 16 IRQ slots)"]

def keyboardReady : List Print :=
  [.writeln "  >> Keyboard driver initialized (IRQ1 registered)"]

def filesReady : List Print :=
  [.writeln "  >> File system initialized (8 x 32KB blocks, FAT-linked)"]

/-- `VGA_WHITE` is 15. -/
def allReady : List Print :=
  [.writeln "  >> Directory subsystem initialized (cwd = /)", .writeln "", .setColor 15 0,
    .writeln "  >> All systems ready. Entering shell...", .writeln ""]

/-- `kmain` up to `sti`, from chips in the state `boot`. -/
def kmain (boot : Pics) : List Deed :=
  .prints .init :: (prints welcome ++
    ([.gdtInit] ++ prints gdtLoaded ++
    ([.idtInit] ++ prints idtLoaded ++
    ((picInitWrites boot).map .outb ++ prints picInitPrints ++
    (prints (bootProcTable ++ bootPrivTable ++ bootImageInit ++ announce) ++
    (kbdInit (picInit boot) ++ prints keyboardReady ++
    ([.fsInit] ++ prints filesReady ++
    ([.dirInit] ++ prints allReady ++ [.sti]))))))))

end Source

variable {buf : Buffer 11} {station now ready : Station} {deeds front : List Deed} {terminal : Terminal}

section Deeds

theorem acts_append (buf : Buffer 11) (deeds more : List Deed) (station : Station) :
    acts buf (deeds ++ more) station = (acts buf deeds station).bind (acts buf more) :=
  List.foldlM_append

theorem acts_cons (buf : Buffer 11) (deed : Deed) (deeds : List Deed) (station : Station) :
    acts buf (deed :: deeds) station = (deed.act buf station).bind (acts buf deeds) :=
  List.foldlM_cons

def Deed.written : Deed → Option (Port × UInt8)
  | .outb write => some write
  | _ => none

/-- The interrupt flag after the deed. -/
def Deed.flag (on : Bool) : Deed → Bool
  | .sti => true
  | .cli => false
  | _ => on

def send (pics : Pics) (writes : List (Port × UInt8)) : Pics :=
  writes.foldl (fun pics write => Interrupts.outb pics write.1 write.2) pics

theorem act_spec {deed : Deed} (acted : deed.act buf station = some now) :
    now.pics = send station.pics deed.written.toList ∧ now.interrupts = deed.flag station.interrupts := by
  cases deed with
  | prints print =>
      obtain ⟨_, _, rfl⟩ := Option.map_eq_some_iff.mp acted
      exact ⟨rfl, rfl⟩
  | dirInit =>
      simp only [Deed.act] at acted
      split at acted
      · cases acted
        exact ⟨rfl, rfl⟩
      · cases acted
  | gdtInit | idtInit | outb write | register irq handler | fsInit | sti | cli | power port value =>
      cases acted
      exact ⟨rfl, rfl⟩

/-- The chips know only what is written to them, and the flag is changed by `sti` and
`cli`. -/
theorem acts_spec (run : acts buf deeds station = some now) :
    now.pics = send station.pics (deeds.filterMap Deed.written) ∧
      now.interrupts = deeds.foldl Deed.flag station.interrupts := by
  induction deeds generalizing station with
  | nil =>
      cases run
      exact ⟨rfl, rfl⟩
  | cons deed deeds ih =>
      rw [acts_cons] at run
      obtain ⟨next, acted, run⟩ := Option.bind_eq_some_iff.mp run
      obtain ⟨pics, interrupts⟩ := act_spec acted
      obtain ⟨laterPics, laterInterrupts⟩ := ih run
      refine ⟨?_, ?_⟩
      · rw [laterPics, pics]
        cases written : deed.written <;> simp [send, written]
      · rw [laterInterrupts, interrupts, List.foldl_cons]

theorem flag_kept {on : Bool} (kept : ∀ deed ∈ deeds, deed.flag on = on) : deeds.foldl Deed.flag on = on := by
  induction deeds with
  | nil => rfl
  | cons deed deeds ih =>
      rw [List.forall_mem_cons] at kept
      rw [List.foldl_cons, kept.1, ih kept.2]

theorem vgaWrite_shows {memory : List UInt8} (ended : 0 ∈ memory) {vga : VgaState} (shows : Shows vga terminal) :
    ∃ after, vgaWrite memory vga = some after ∧ Shows after (terminal.write (cstr memory)) := by
  induction memory generalizing vga terminal with
  | nil => cases ended
  | cons c memory ih =>
      by_cases zero : c = 0
      · rw [zero, cstr_zero_cons]
        exact ⟨vga, rfl, shows⟩
      · obtain ⟨next, put, shown⟩ := shows.putchar c
        obtain ⟨after, written, shown⟩ := ih (by simpa [Ne.symm zero] using ended) shown
        refine ⟨after, ?_, ?_⟩
        · rw [vgaWrite, if_neg zero, put, Option.bind_some, written]
        · rw [cstr_cons zero]
          exact shown

theorem Print.draw_shows (buf : Buffer 11) (print : Print) {vga : VgaState} (shows : Shows vga terminal) :
    ∃ after shown, print.draw buf vga = some after ∧ Shows after shown := by
  cases print with
  | init =>
      obtain ⟨after, cleared, shown⟩ := vgaInit_shows vga
      exact ⟨after, _, cleared, shown⟩
  | setColor fg bg =>
      obtain ⟨after, colored, shown⟩ := shows.call (.setColor fg bg)
      exact ⟨after, _, colored, shown⟩
  | write s =>
      obtain ⟨after, written, shown⟩ := vgaWrite_shows (show 0 ∈ literal s by simp [literal]) shows
      exact ⟨after, _, written, shown⟩
  | writeln s =>
      obtain ⟨line, written, shown⟩ := vgaWrite_shows (show 0 ∈ literal s by simp [literal]) shows
      obtain ⟨after, ended, shown⟩ := shown.putchar newline
      refine ⟨after, _, ?_, shown⟩
      simp only [Print.draw, vgaWriteln, written, Option.bind_some, ended]
  | dec n =>
      obtain ⟨text, decimal, _⟩ := vgaWriteDec_denotes buf n
      obtain ⟨after, written, shown⟩ := prints_numeral text vga terminal shows
      refine ⟨after, _, ?_, shown⟩
      simp only [Print.draw, decimal, written]

/-- Deeds that come to their end on every screen, and what they do besides drawing. -/
def Acts (buf : Buffer 11) (deeds : List Deed) (change : Core → Core) : Prop :=
  ∀ core vga terminal, Shows vga terminal →
    ∃ after shown, acts buf deeds ⟨core, vga⟩ = some ⟨change core, after⟩ ∧ Shows after shown

theorem Acts.append {more : List Deed} {change further : Core → Core} (first : Acts buf deeds change)
    (second : Acts buf more further) : Acts buf (deeds ++ more) (fun core => further (change core)) := by
  intro core vga terminal shows
  obtain ⟨between, drawn, run, shown⟩ := first core vga terminal shows
  obtain ⟨after, final, again, result⟩ := second (change core) between drawn shown
  refine ⟨after, final, ?_, result⟩
  rw [acts_append, run, Option.bind_some, again]

theorem acts_prints (buf : Buffer 11) (calls : List Print) : Acts buf (prints calls) id := by
  intro core vga terminal shows
  induction calls generalizing vga terminal with
  | nil => exact ⟨vga, terminal, rfl, shows⟩
  | cons print calls ih =>
      obtain ⟨next, drawn, draws, shown⟩ := print.draw_shows buf shows
      obtain ⟨after, final, run, result⟩ := ih next drawn shown
      refine ⟨after, final, ?_, result⟩
      simp only [prints, List.map_cons, acts_cons, Deed.act, draws, Option.map_some, Option.bind_some]
      exact run

/-- A deed that only changes the core. -/
theorem acts_single {deed : Deed} {change : Core → Core}
    (does : ∀ core vga, deed.act buf ⟨core, vga⟩ = some ⟨change core, vga⟩) : Acts buf [deed] change := by
  intro core vga terminal shows
  refine ⟨vga, terminal, ?_, shows⟩
  rw [acts_cons, does]
  rfl

theorem acts_writes (buf : Buffer 11) (writes : List (Port × UInt8)) :
    Acts buf (writes.map .outb) fun core => { core with pics := send core.pics writes } := by
  intro core vga terminal shows
  refine ⟨vga, terminal, ?_, shows⟩
  induction writes generalizing core with
  | nil => rfl
  | cons write writes ih => exact ih { core with pics := Interrupts.outb core.pics write.1 write.2 }

theorem send_picInit (pics : Pics) : send pics (picInitWrites pics) = picInit pics :=
  rfl

/-- The table of directories that `dir_init` leaves. -/
def rootTable (dir : Dir.DirState) : Dir.DirState :=
  match Dir.dirInit dir with
  | .ok made => made
  | .error _ => dir

theorem dirInit_rootTable (dir : Dir.DirState) : Dir.dirInit dir = .ok (rootTable dir) := by
  have inside : 0 < Dir.dirMax := by decide
  obtain ⟨row, stored⟩ := (dir.dirs ⟨0, inside⟩).store_exists 0 Dir.rootMemory (by decide)
  have init : Dir.dirInit dir = .ok { dirs := Function.update dir.dirs ⟨0, inside⟩ row, dirCount := 1, cwdIdx := 0 } := by
    simp only [Dir.dirInit, Dir.DirState.row, Dir.DirState.setRow, dif_pos inside, stored, inBounds, bind, Except.bind,
      pure, Except.pure]
  simp only [rootTable, init]

/-- What `kmain` does besides drawing, on chips in the state `boot`. -/
theorem kmain_acts (buf : Buffer 11) (core : Core) (vga : VgaState) :
    ∃ after shown, acts buf (kmain core.pics) ⟨core, vga⟩ = some ⟨{
        gdt := true
        idt := true
        pics := picUnmask (picInit core.pics) 1
        handlers := irqRegister core.handlers 1 (some .kbdIsr)
        fs := Fs.fsInit core.fs
        dir := rootTable core.dir
        interrupts := true
        power := core.power }, after⟩ ∧ Shows after shown := by
  obtain ⟨start, cleared, shows⟩ := vgaInit_shows vga
  have gdt : Acts buf [.gdtInit] fun core => { core with gdt := true } := acts_single fun _ _ => rfl
  have idt : Acts buf [.idtInit] fun core => { core with idt := true } := acts_single fun _ _ => rfl
  have fs : Acts buf [.fsInit] fun core => { core with fs := Fs.fsInit core.fs } := acts_single fun _ _ => rfl
  have sti : Acts buf [.sti] fun core => { core with interrupts := true } := acts_single fun _ _ => rfl
  have dir : Acts buf [.dirInit] fun core => { core with dir := rootTable core.dir } := by
    apply acts_single
    intro core vga
    simp only [Deed.act, dirInit_rootTable]
  have kbd : Acts buf (kbdInit (picInit core.pics)) fun now => { now with
      handlers := irqRegister now.handlers 1 (some .kbdIsr)
      pics := Interrupts.outb now.pics (.data .master)
        (readMask (picInit core.pics) .master &&& (~~~ ((1 : UInt32) <<< 1)).toUInt8) } := by
    intro now vga terminal shows
    exact ⟨vga, terminal, rfl, shows⟩
  have rest := (acts_prints buf welcome).append ((gdt.append (acts_prints buf gdtLoaded)).append
    ((idt.append (acts_prints buf idtLoaded)).append (((acts_writes buf (picInitWrites core.pics)).append
    (acts_prints buf picInitPrints)).append
    ((acts_prints buf (bootProcTable ++ bootPrivTable ++ bootImageInit ++ announce)).append
    ((kbd.append (acts_prints buf keyboardReady)).append ((fs.append (acts_prints buf filesReady)).append
    ((dir.append (acts_prints buf allReady)).append sti)))))))
  obtain ⟨after, shown, run, result⟩ := rest core start _ shows
  refine ⟨after, shown, ?_, result⟩
  have first : Deed.act buf ⟨core, vga⟩ (.prints .init) = some ⟨core, start⟩ := by
    simp only [Deed.act, Print.draw, cleared, Option.map_some]
  simp only [id, send_picInit] at run
  rw [kmain, acts_cons, first, Option.bind_some]
  exact run

end Deeds

section Interrupts

/-- The chips pass a request on the line to the processor. The requests of the
slave go through line 2 of the master. -/
def Forwards (pics : Pics) (line : Fin 16) : Prop :=
  (pics .master).stage = .ready ∧ maskBit pics line = false ∧
    (8 ≤ line.val → (pics .slave).stage = .ready ∧ (readMask pics .master).toNat.testBit 2 = false)

/-- A request on the line interrupts the kernel. -/
def Core.Takes (core : Core) (line : Fin 16) : Prop :=
  core.interrupts = true ∧ Forwards core.pics line

theorem acts_prefix (run : acts buf deeds station = some ready) (cut : front <+: deeds) :
    ∃ now, acts buf front station = some now := by
  obtain ⟨back, rfl⟩ := cut
  rw [acts_append] at run
  obtain ⟨now, early, _⟩ := Option.bind_eq_some_iff.mp run
  exact ⟨now, early⟩

/-- `sti` is the last deed of `kmain`. -/
theorem kmain_sti (boot : Pics) :
    ∃ before, kmain boot = before ++ [.sti] ∧ ∀ deed ∈ before, deed.flag false = false := by
  refine ⟨.prints .init :: (prints welcome ++ ([.gdtInit] ++ prints gdtLoaded ++ ([.idtInit] ++ prints idtLoaded ++
    ((picInitWrites boot).map .outb ++ prints picInitPrints ++
    (prints (bootProcTable ++ bootPrivTable ++ bootImageInit ++ announce) ++
    (kbdInit (picInit boot) ++ prints keyboardReady ++ ([.fsInit] ++ prints filesReady ++
    ([.dirInit] ++ prints allReady)))))))), ?_, ?_⟩
  · simp only [kmain, List.append_assoc, List.cons_append]
  · intro deed member
    cases deed with
    | sti => simp [prints, kbdInit] at member
    | prints | gdtInit | idtInit | outb | register | fsInit | dirInit | cli | power => rfl

/-- No interrupt is taken before `kmain` has set up everything. From then on the line
of the keyboard and the lines that the BIOS has left enabled interrupt the
kernel, each through a vector of its own, and only the keyboard has a handler
besides those from before. -/
theorem kmain_lets_through (buf : Buffer 11) (core : Core) (vga : VgaState) (off : core.interrupts = false) :
    ∃ ready, acts buf (kmain core.pics) ⟨core, vga⟩ = some ready ∧
      (∀ front, front <+: kmain core.pics → ∃ now, acts buf front ⟨core, vga⟩ = some now ∧
        (front ≠ kmain core.pics → now.interrupts = false)) ∧
      ready.gdt = true ∧ ready.idt = true ∧ Shell.Consistent ⟨ready.dir, ready.fs⟩ [Dir.rootPath] ∧
      ∀ line, (ready.Takes line ↔
          (line = 1 ∨ maskBit core.pics line = false) ∧ (8 ≤ line.val → maskBit core.pics 2 = false)) ∧
        vectorOf ready.pics line = 32 + line ∧
        ready.handlers line = if line = 1 then some .kbdIsr else core.handlers line := by
  obtain ⟨after, _, run, _⟩ := kmain_acts buf core vga
  obtain ⟨before, ends, none⟩ := kmain_sti core.pics
  refine ⟨_, run, ?_, rfl, rfl, Shell.consistent_boot (dirInit_rootTable core.dir) core.fs, ?_⟩
  · intro front cut
    obtain ⟨now, early⟩ := acts_prefix run cut
    refine ⟨now, early, ?_⟩
    intro short
    rw [(acts_spec early).2, off]
    apply flag_kept
    intro deed member
    rw [ends] at cut short
    rcases List.prefix_concat_iff.mp cut with whole | part
    · exact absurd whole short
    · exact none deed (part.subset member)
  · intro line
    obtain ⟨ready, masks⟩ := picInit_spec core.pics
    have unmasked (line : Fin 16) := PicCall.apply_spec ready (.unmask 1) line
    have bit (line : Fin 16) : maskBit (picUnmask (picInit core.pics) 1) line =
        if 1 = line then false else maskBit core.pics line := by
      have applied : maskBit (picUnmask (picInit core.pics) 1) line = _ := (unmasked line).2
      rw [applied, maskBit, masks]
      rfl
    have remapped : Remapped (picUnmask (picInit core.pics) 1) := (picInit_remapped core.pics).calls [.unmask 1]
    refine ⟨?_, remapped.vectorOf line, ?_⟩
    · have cascade : (readMask (picUnmask (picInit core.pics) 1) .master).toNat.testBit 2 = maskBit core.pics 2 := bit 2
      simp only [Core.Takes, Forwards, (remapped _).1, bit, cascade, true_and]
      by_cases keyboard : 1 = line
      · subst keyboard
        simp
      · simp [keyboard, Ne.symm keyboard]
    · refine (irqRegister_line core.handlers ⟨1, some Handler.kbdIsr⟩ line).trans ?_
      by_cases keyboard : line = 1
      · subst keyboard
        rfl
      · have other : Registration.names line ⟨1, some Handler.kbdIsr⟩ = false := by
          simpa [Registration.names, Fin.ext_iff, eq_comm] using keyboard
        rw [other, if_neg keyboard]
        rfl

/-- A BIOS leaves lines 0, 1, 2 and 6 of each chip enabled. -/
def biosCore : Core :=
  ⟨false, false, fun _ => ⟨0xB8, 0x08, .ready⟩, fun _ => none, Fs.bss, Dir.bssDirs, false, []⟩

theorem bios_timer_let_through : ∃ ready, acts (.zeros 11) (kmain biosCore.pics) ⟨biosCore, ⟨fun _ => 0, 0, 0, 0⟩⟩ =
    some ready ∧ ready.Takes 0 ∧ ready.handlers 0 = none ∧ ready.Takes 1 ∧ ready.handlers 1 = some .kbdIsr := by
  obtain ⟨ready, run, _, _, _, _, lines⟩ :=
    kmain_lets_through (.zeros 11) biosCore ⟨fun _ => 0, 0, 0, 0⟩ rfl
  exact ⟨ready, run, (lines 0).1.mpr (by decide), (lines 0).2.2, (lines 1).1.mpr (by decide), (lines 1).2.2⟩

end Interrupts

end DugOS.Boot
