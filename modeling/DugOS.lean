import DugOS.Keyboard.Scancodes
import DugOS.Interrupts.Irq
import DugOS.Prototype.Fwrite
import DugOS.Fs.Truncation
import DugOS.Fs.Refinement
import DugOS.Dir.Canonical
import DugOS.Vga.Numbers
import DugOS.Shell.Removal
import DugOS.Shell.Echo
import DugOS.Shell.ParseCmd
import DugOS.Shell.Keys
import DugOS.Shell.Session
import DugOS.Shell.Typing
import DugOS.Shell.Volume
import DugOS.Shell.RoundTrip
import DugOS.Shell.Listing
import DugOS.Boot.Traps
import DugOS.Keyboard.Waiting
import DugOS.Strings.Copying
import DugOS.Boot.Kmain
import DugOS.Boot.Shutdown
import DugOS.Data.Causal
import DugOS.Shell.Timing
