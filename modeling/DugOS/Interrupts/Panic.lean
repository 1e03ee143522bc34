import DugOS.Interrupts.Exceptions
import DugOS.Vga.Numbers
import DugOS.Vga.Window

namespace DugOS.Interrupts

open Data Vga

/-! The screen that `isr_common_handler` leaves behind before it halts the
processor. -/

section Source

def exceptionName (vec : UInt32) : List UInt8 :=
  match vec.toNat with
  | 0 => ascii "Divide by zero"
  | 1 => ascii "Debug"
  | 2 => ascii "Non-maskable interrupt"
  | 3 => ascii "Breakpoint"
  | 4 => ascii "Overflow"
  | 5 => ascii "Bound range exceeded"
  | 6 => ascii "Invalid opcode"
  | 7 => ascii "Device not available"
  | 8 => ascii "Double fault"
  | 9 => ascii "Coprocessor segment overrun"
  | 10 => ascii "Invalid TSS"
  | 11 => ascii "Segment not present"
  | 12 => ascii "Stack-segment fault"
  | 13 => ascii "General protection fault"
  | 14 => ascii "Page fault"
  | 16 => ascii "x87 FPU exception"
  | 17 => ascii "Alignment check"
  | 18 => ascii "Machine check"
  | 19 => ascii "SIMD FP exception"
  | _ => ascii "Reserved/unknown"

/-- The characters of a numeral, one `vga_putchar` after the other. -/
def putNumeral (text : Option (List UInt8)) (vga : VgaState) : Option VgaState :=
  text.bind fun text => text.foldlM (fun vga c => vgaPutchar c vga) vga

/-- A string literal and its terminator. -/
def literal (text : String) : List UInt8 :=
  ascii text ++ [0]

/-- `isr_common_handler` up to the loop of `cli` and `hlt` that it never leaves.
`buf` is what the stack holds when `vga_write_dec` starts; `VGA_LIGHT_RED` is 12. -/
def isrCommonHandler (buf : Buffer 11) (r : Regs) (vga : VgaState) : Option VgaState := do
  let vga := vgaSetColor 12 0 vga
  let vga ← vgaWriteln (literal "") vga
  let vga ← vgaWrite (literal "  !! EXCEPTION ") vga
  let vga ← putNumeral (vgaWriteDec buf (.ofBitVec r.vector)) vga
  let vga ← vgaWrite (literal " (") vga
  let vga ← vgaWrite (exceptionName (.ofBitVec r.vector) ++ [0]) vga
  let vga ← vgaWrite (literal ")  err=0x") vga
  let vga ← putNumeral (vgaWriteHex (.ofBitVec r.errCode)) vga
  let vga ← vgaWriteln (literal "") vga
  let vga ← vgaWrite (literal "  Faulting EIP=0x") vga
  let vga ← putNumeral (vgaWriteHex (.ofBitVec r.eip)) vga
  let vga ← vgaWriteln (literal "") vga
  vgaWriteln (literal "  CPU halted. Restart QEMU to continue.") vga

end Source

section Printing

variable {action next : VgaState → Option VgaState} {vga : VgaState} {terminal : Terminal}
  {text more name number code eip : List UInt8}

/-- Part of a program that writes a text on every screen. -/
def Prints (action : VgaState → Option VgaState) (text : List UInt8) : Prop :=
  ∀ vga terminal, Shows vga terminal → ∃ after, action vga = some after ∧ Shows after (terminal.write text)

theorem Prints.bind (first : Prints action text) (second : Prints next more) :
    Prints (fun vga => action vga >>= next) (text ++ more) := by
  intro vga terminal shows
  obtain ⟨written, run, shown⟩ := first vga terminal shows
  obtain ⟨after, further, result⟩ := second written _ shown
  refine ⟨after, ?_, ?_⟩
  · simp only [run, Option.bind_eq_bind, Option.bind_some, further]
  · rwa [Terminal.write, List.foldl_append]

theorem prints_write (noNul : 0 ∉ text) : Prints (vgaWrite (text ++ [0])) text := by
  intro vga terminal shows
  exact shows.write noNul

theorem prints_putchar (c : UInt8) : Prints (vgaPutchar c) [c] := by
  intro vga terminal shows
  exact shows.putchar c

theorem prints_writeln (noNul : 0 ∉ text) : Prints (vgaWriteln (text ++ [0])) (text ++ [newline]) :=
  (prints_write noNul).bind (prints_putchar newline)

theorem prints_numeral (text : List UInt8) : Prints (putNumeral (some text)) text := by
  induction text with
  | nil =>
      intro vga terminal shows
      exact ⟨vga, rfl, shows⟩
  | cons c text ih => exact (prints_putchar c).bind ih

/-- The report, with its numerals. -/
def panicText (number name code eip : List UInt8) : List UInt8 :=
  [newline] ++ (ascii "  !! EXCEPTION " ++ (number ++ (ascii " (" ++ (name ++ (ascii ")  err=0x" ++ (code ++
    ([newline] ++ (ascii "  Faulting EIP=0x" ++ (eip ++ ([newline] ++
      (ascii "  CPU halted. Restart QEMU to continue." ++ [newline])))))))))))

theorem exceptionName_noNul (vector : Fin 32) : 0 ∉ exceptionName (UInt32.ofNat vector) := by
  have all : ∀ vector : Fin 32, (exceptionName (UInt32.ofNat vector)).contains 0 = false := by decide +kernel
  intro member
  have found := all vector
  rw [List.contains_iff_mem.mpr member] at found
  cases found

theorem vgaWriteHex_denotes (n : UInt32) : ∃ text, vgaWriteHex n = some text ∧ Denotes 16 text n.toNat :=
  hexLoop_denotes (show 7 < 8 by decide) n.toNat_lt

/-- The report names the vector, the error code and the address of the fault. -/
theorem isrCommonHandler_prints (buf : Buffer 11) {r : Regs} {vector : Fin 32}
    (numbered : r.vector = BitVec.ofNat 32 vector) (shows : Shows vga terminal) :
    ∃ number code eip after, isrCommonHandler buf r vga = some after ∧
      Shows after (Terminal.write { terminal with color := 12 }
        (panicText number (exceptionName (UInt32.ofNat vector)) code eip)) ∧
      Denotes 10 number vector ∧ Denotes 16 code r.errCode.toNat ∧ Denotes 16 eip r.eip.toNat := by
  have small := vector.isLt
  have same : UInt32.ofBitVec r.vector = UInt32.ofNat vector := by rw [numbered]; rfl
  have value : (UInt32.ofNat vector).toNat = vector := UInt32.toNat_ofNat_of_lt' (Nat.lt_trans small (by decide))
  obtain ⟨number, decimal, isNumber⟩ := vgaWriteDec_denotes buf (.ofNat vector)
  obtain ⟨code, codeText, isCode⟩ := vgaWriteHex_denotes (.ofBitVec r.errCode)
  obtain ⟨eip, eipText, isEip⟩ := vgaWriteHex_denotes (.ofBitVec r.eip)
  rw [value] at isNumber
  have report : Prints (fun vga => do
      let vga ← vgaWriteln (literal "") vga
      let vga ← vgaWrite (literal "  !! EXCEPTION ") vga
      let vga ← putNumeral (some number) vga
      let vga ← vgaWrite (literal " (") vga
      let vga ← vgaWrite (exceptionName (.ofNat vector) ++ [0]) vga
      let vga ← vgaWrite (literal ")  err=0x") vga
      let vga ← putNumeral (some code) vga
      let vga ← vgaWriteln (literal "") vga
      let vga ← vgaWrite (literal "  Faulting EIP=0x") vga
      let vga ← putNumeral (some eip) vga
      let vga ← vgaWriteln (literal "") vga
      vgaWriteln (literal "  CPU halted. Restart QEMU to continue.") vga)
      (panicText number (exceptionName (UInt32.ofNat vector)) code eip) :=
    (prints_writeln (by decide)).bind <| (prints_write (by decide)).bind <| (prints_numeral number).bind <|
      (prints_write (by decide)).bind <| (prints_write (exceptionName_noNul vector)).bind <|
      (prints_write (by decide)).bind <| (prints_numeral code).bind <| (prints_writeln (by decide)).bind <|
      (prints_write (by decide)).bind <| (prints_numeral eip).bind <| (prints_writeln (by decide)).bind <|
      prints_writeln (by decide)
  obtain ⟨red, coloured, shown⟩ := shows.call (.setColor 12 0)
  obtain ⟨after, run, result⟩ := report red _ shown
  refine ⟨number, code, eip, after, ?_, result, isNumber, isCode, isEip⟩
  cases coloured
  rw [isrCommonHandler, same, decimal, codeText, eipText]
  exact run

end Printing

end DugOS.Interrupts
