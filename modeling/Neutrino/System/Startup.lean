import Neutrino.Memory.MemoryInit
import Neutrino.System.Session
import Neutrino.System.SlotSearch

/-!
# From `main` on

`main` prints what it installs, adds the two tasks and lets interrupts in. So the screen shows one text from
`vga_init` to any later request: the memory map, the messages of `main`, and what the requests show
(`kernel_session`). `main` returns when the map has room for what it allocates (`Roomy`): a `malloc` that
finds none does not.

The manager and the tasks are kept as values here, not in the blocks allocated for them. `stack_create`
writes through a pointer it never sets: `stackA` and `stackB` are what the pointer happens to hold, and what
these writes destroy is left out.
-/

namespace Neutrino.System.OnScreen

open Neutrino.Lib Neutrino.Drivers Neutrino.Stdio
open Neutrino.Memory (E820 Desc Heap SaneRegions field sizeofAlloc)
open InMemory (sizeofTaskManager sizeofTask)

/-! ## The code -/

/-- A string literal of the kernel. -/
structure Literal (strings : Strings) (text : String) where
  addr : UInt32
  str : CString
  found : strings addr = some str
  nonnull : addr ≠ 0
  bytes : str.bytes = literal text

/-- Where the linker has put what `main` uses. -/
structure Image (strings : Strings) where
  idt : IdtLayout
  isr : Fin 32 → UInt32
  irq : Fin 16 → UInt32
  available : Literal strings "<available>"
  reserved : Literal strings "<reserved>"
  printTestA : UInt32
  printTestB : UInt32
  apart : printTestA ≠ printTestB

section Code

variable (m : VideoMode) (o : Output) (img : Image o.strings)

def high (v : UInt64) : UInt32 := (v >>> 32).toUInt32

def printDescriptor (d : Desc) : SessionM Unit :=
  say m o "Base: 0x%x%08x, Length: 0x%x%08x, Type: %d %s\n"
    [.int (high d.baseAddr).toBitVec, .int d.baseAddr.toUInt32.toBitVec, .int (high d.length).toBitVec,
      .int d.length.toUInt32.toBitVec, .int d.type.toBitVec,
      .ptr (if d.type = 1 then img.available.addr else img.reserved.addr)]

/-- `n` lines, from entry `i` of the table on. -/
def printRegions (t : E820) : Nat → Nat → SessionM Unit
  | 0, _ => pure ()
  | n + 1, i => do
      say m o "Region %u: " [.int (UInt32.ofNat i).toBitVec]
      printDescriptor m o img (t.map i)
      printRegions t n (i + 1)

/-- The table and the heap that `memory_init` leaves. -/
def initHeap (t : E820) : KernelM (E820 × Heap) := fun k => do
  let (t, h) ← Memory.memoryInit t ⟨k.machine.mem, 0, 0, []⟩
  return ((t, h), { k with machine := { k.machine with mem := h.mem } })

/-- The lines are printed in the loop, which does not change the table. The total is passed in two words, and
`%u` takes the first. -/
def memoryInit (t : E820) : SessionM Heap := do
  let (t, h) ← silent (initHeap t)
  printRegions m o img t t.size 0
  let total := UInt64.ofNat h.totalMemory
  say m o "%u Bytes of memory mapped for allocation!\n"
    [.int total.toUInt32.toBitVec, .int (high total).toBitVec]
  return h

/-- `malloc` in the kernel's memory. The two variables of the heap are those of `h`. -/
def malloc (fuel size : Nat) (h : Heap) : SessionM (Nat × Heap) :=
  silent fun k => do
    let (p, h) ← Memory.malloc fuel size { h with mem := k.machine.mem }
    return ((p, h), { k with machine := { k.machine with mem := h.mem } })

def irqInstallHandler (irq : Nat) (handler : IrqRoutine) : SessionM Unit := do
  silent fun k =>
    some ((), { k with irqRoutines := System.irqInstallHandler irq handler k.irqRoutines })
  let installed ← silent fun k => some (k.irqRoutines.slot irq, k)
  if installed.isSome then
    say m o "Handler at position %i has been installed\n" [.int (UInt32.ofNat irq).toBitVec]
  else
    say m o "Handler at position %i failed to install\n" [.int (UInt32.ofNat irq).toBitVec]

/-- `drive` is what `_ata_identify` returns. -/
def ataInstall (fuel : Nat) (drive : Bool) (h : Heap) : SessionM Heap := do
  say m o "Loading ATA Drives\n" []
  let (_, h) ← malloc fuel 512 h
  irqInstallHandler m o ataPrimaryIrq.toNat .primaryIrq
  irqInstallHandler m o ataSecondaryIrq.toNat .secondaryIrq
  if drive then
    say m o "Located Primary Master drive!\n" []
  return h

/-- `sizeof(unsigned int)` -/
def sizeofInt : Nat := 4

def createTaskManager (fuel : Nat) (h : Heap) : SessionM Heap := do
  let (_, h) ← malloc fuel sizeofTaskManager h
  silent fun k => some ((), k.withThreads { k.clock.threads with manager := System.createTaskManager })
  return h

/-- `stack_create` hands back the pointer it did not set. -/
def createTaskStack (fuel : Nat) (stack : UInt32) (h : Heap) : SessionM (UInt32 × Heap) := do
  let (_, h) ← malloc fuel (4096 * sizeofInt) h
  return (stack, h)

def taskCreate (fuel : Nat) (pid priority functionPtr stack : UInt32) (h : Heap) :
    SessionM (Task × Heap) := do
  let (_, h) ← malloc fuel sizeofTask h
  let (taskStack, h) ← createTaskStack fuel stack h
  return (System.taskCreate pid priority functionPtr taskStack, h)

def addTask (start : UInt32) (t : Task) : SessionM Unit := do
  let s ← silent threads
  if managerFull s.manager then
    say m o "Task manager can't hold anymore tasks\n" []
  else
    silent fun k => do
      let s ← System.addTask start k.clock.threads t
      return ((), k.withThreads s)
    say m o "Task for instruction at location %p successfully created\n" [.ptr t.currIns]

def printTestA : SessionM Unit := do
  let i : Int32 := 0
  let i := i + 5
  let i := i + i
  say m o "%d" [.int i.toBitVec]
  say m o "\n" []

def printTestB : SessionM Unit := do
  let i : Int32 := 0
  let i := i + 10
  let i := i + i
  say m o "%d" [.int i.toBitVec]
  say m o "\n" []

/-- The functions of tasks. -/
def function (f : UInt32) : SessionM Unit :=
  if f = img.printTestA then printTestA m o
  else if f = img.printTestB then printTestB m o
  else fun _ => none

/-- The tasks of `add_tests`. -/
def tests (stackA stackB : UInt32) : List Task :=
  [System.taskCreate 0 0 img.printTestA stackA, System.taskCreate 1 1 img.printTestB stackB]

/-- The index that `add_task` searches from is not set; here it is zero, as is the table. -/
def addTests (fuel : Nat) (stackA stackB : UInt32) (h : Heap) : SessionM Unit := do
  let (t₁, h) ← taskCreate fuel 0 0 img.printTestA stackA h
  let (t₂, _) ← taskCreate fuel 1 1 img.printTestB stackB h
  addTask m o 0 t₁
  addTask m o 0 t₂

/-- `main`, once `vga_init` has returned. -/
def main (fuel : Nat) (t : E820) (drive : Bool) (stackA stackB : UInt32) : SessionM Unit := do
  let h ← memoryInit m o img t
  say m o "Entered Kernel\n" []
  let _ ← silent (interruptsInstall img.idt img.isr img.irq)
  irqInstallHandler m o 0 .timerHandler
  irqInstallHandler m o 1 .keyboardHandler
  let h ← ataInstall m o fuel drive h
  let h ← createTaskManager fuel h
  say m o "Running NeutrinoOS Version %d.%d.%d!\n"
    [.int (0 : UInt32).toBitVec, .int (3 : UInt32).toBitVec, .int (43 : UInt32).toBitVec]
  addTests m o img fuel stackA stackB h

end Code

/-- The kernel in `main`, in some memory. `codes` are those the keyboard will send. -/
def booting (mem : ByteMemory) (codes : List UInt8) : Kernel :=
  ⟨⟨mem, ⟨[], codes⟩, []⟩, SlotTable.empty IrqRoutine 16, ⟨0, Threads.boot, 0⟩, Keyboard.boot⟩

/-! ## The messages -/

def regionLine (i : Nat) : List UInt8 :=
  [literal "Region ", renderInt (UInt32.ofNat i).toNat Flags.none 10 0 0, literal ": "].flatten

def descriptorLine (d : Desc) : List UInt8 :=
  [literal "Base: 0x", renderInt (high d.baseAddr).toNat Flags.none 16 0 0,
    renderInt d.baseAddr.toUInt32.toNat Piece.zeroFlags 16 0 8, literal ", Length: 0x",
    renderInt (high d.length).toNat Flags.none 16 0 0,
    renderInt d.length.toUInt32.toNat Piece.zeroFlags 16 0 8, literal ", Type: ",
    renderInt d.type.toNat Piece.signedFlags 10 0 0, literal " ",
    literal (if d.type = 1 then "<available>" else "<reserved>"), literal "\n"].flatten

def memoryText (t : E820) (total : UInt64) : List Int8 :=
  (List.range t.size).flatMap (fun i => printed (regionLine i) ++ printed (descriptorLine (t.map i))) ++
    printed [renderInt total.toUInt32.toNat Flags.none 10 0 0,
      literal " Bytes of memory mapped for allocation!\n"].flatten

def installedText (irq : Nat) : List Int8 :=
  printed [literal "Handler at position ",
    renderInt (UInt32.ofNat irq).toNat Piece.signedFlags 10 0 0, literal " has been installed\n"].flatten

def createdText (function : UInt32) : List Int8 :=
  printed [literal "Task for instruction at location ",
    renderInt function.toNat Piece.pointerFlags 16 8 0, literal " successfully created\n"].flatten

/-- What `main` shows. -/
def mainText {strings : Strings} (img : Image strings) (t : E820) (total : UInt64) (drive : Bool) :
    List Int8 :=
  [memoryText t total, printed (literal "Entered Kernel\n"), installedText 0, installedText 1,
    printed (literal "Loading ATA Drives\n"), installedText 14, installedText 15,
    if drive then printed (literal "Located Primary Master drive!\n") else [],
    printed (literal "Running NeutrinoOS Version 0.3.43!\n"), createdText img.printTestA,
    createdText img.printTestB].flatten

section Messages

variable {m : VideoMode} {o : Output} {img : Image o.strings} {k : Kernel}

/-- A string literal as a piece. -/
def Literal.piece {strings : Strings} {text : String} (l : Literal strings text)
    (hshort : (literal text).length ≤ 64) : Piece strings :=
  .string l.found l.nonnull (l.bytes ▸ hshort)

theorem region_tells (i : Nat) : Tells m k (say m o "Region %u: " [.int (UInt32.ofNat i).toBitVec]) () k
    (printed (regionLine i)) := by
  have hformat : literal "Region %u: " =
      [literal "Region ", ['%', 'u'].map byte, literal ": "].flatten := by decide +kernel
  exact Tells.say [.text "Region " (by decide +kernel) (by decide +kernel), .unsigned (UInt32.ofNat i),
    .text ": " (by decide +kernel) (by decide +kernel)] [] hformat rfl (by simp)

theorem printDescriptor_tells (d : Desc) :
    Tells m k (printDescriptor m o img d) () k (printed (descriptorLine d)) := by
  have hformat : literal "Base: 0x%x%08x, Length: 0x%x%08x, Type: %d %s\n" =
      [literal "Base: 0x", ['%', 'x'].map byte, ['%', '0', '8', 'x'].map byte, literal ", Length: 0x",
        ['%', 'x'].map byte, ['%', '0', '8', 'x'].map byte, literal ", Type: ", ['%', 'd'].map byte,
        literal " ", ['%', 's'].map byte, literal "\n"].flatten := by decide +kernel
  have hline (kind : Piece o.strings) (hkind : kind.format = ['%', 's'].map byte) :=
    @Tells.say m o k [.text "Base: 0x" (by decide +kernel) (by decide +kernel), .hex (high d.baseAddr),
      .fullHex d.baseAddr.toUInt32, .text ", Length: 0x" (by decide +kernel) (by decide +kernel),
      .hex (high d.length), .fullHex d.length.toUInt32,
      .text ", Type: " (by decide +kernel) (by decide +kernel), .signed 'd' d.type (.inl rfl),
      .text " " (by decide +kernel) (by decide +kernel), kind,
      .text "\n" (by decide +kernel) (by decide +kernel)] [] _ _ (hkind ▸ hformat) rfl (by simp)
  unfold printDescriptor descriptorLine
  by_cases htype : d.type = 1
  · rw [if_pos htype, if_pos htype, ← img.available.bytes]
    exact hline (img.available.piece (by decide +kernel)) rfl
  · rw [if_neg htype, if_neg htype, ← img.reserved.bytes]
    exact hline (img.reserved.piece (by decide +kernel)) rfl

theorem printRegions_tells (t : E820) (n : Nat) : ∀ i : Nat,
    Tells m k (printRegions m o img t n i) () k
      ((List.range' i n).flatMap fun i => printed (regionLine i) ++ printed (descriptorLine (t.map i))) := by
  induction n with
  | zero => exact fun _ => Tells.pure ()
  | succ n ih =>
      intro i
      rw [List.range'_succ, List.flatMap_cons, List.append_assoc]
      exact (region_tells i).bind ((printDescriptor_tells (t.map i)).bind (ih (i + 1)))

theorem memoryInit_tells {t t' : E820} {h : Memory.Heap}
    (hinit : Memory.memoryInit t ⟨k.machine.mem, 0, 0, []⟩ = some (t', h)) :
    Tells m k (memoryInit m o img t) h { k with machine := { k.machine with mem := h.mem } }
      (memoryText t' (UInt64.ofNat h.totalMemory)) := by
  have hformat : literal "%u Bytes of memory mapped for allocation!\n" =
      [['%', 'u'].map byte, literal " Bytes of memory mapped for allocation!\n"].flatten := by
    decide +kernel
  have hheap : initHeap t k = some ((t', h), { k with machine := { k.machine with mem := h.mem } }) := by
    unfold initHeap
    rw [hinit]
    rfl
  refine Tells.after hheap ?_
  -- the upper word of the total is left over
  unfold memoryText
  rw [List.range_eq_range']
  have htotal := @Tells.say m o { k with machine := { k.machine with mem := h.mem } }
    [.unsigned (UInt64.ofNat h.totalMemory).toUInt32,
      .text " Bytes of memory mapped for allocation!\n" (by decide +kernel) (by decide +kernel)]
    [.int (high (UInt64.ofNat h.totalMemory)).toBitVec] _ _ hformat rfl (by simp)
  exact (printRegions_tells t' t'.size 0).bind (htotal.returns h)

/-- The heap whose variables are in `h`, in the memory of `k`, has room. -/
def HasRoom (h : Heap) (k : Kernel) (n : Nat) : Prop :=
  ({ h with mem := k.machine.mem } : Heap).Room n

/-- Only memory is changed. -/
def MemoryOnly (k k' : Kernel) : Prop := ∃ mem, k' = { k with machine := { k.machine with mem } }

theorem MemoryOnly.trans {k k₁ k₂ : Kernel} (h₁ : MemoryOnly k k₁) (h₂ : MemoryOnly k₁ k₂) :
    MemoryOnly k k₂ := by
  obtain ⟨mem₁, rfl⟩ := h₁
  obtain ⟨mem₂, rfl⟩ := h₂
  exact ⟨mem₂, rfl⟩

/-- **A call of `malloc` that there is room for.** -/
theorem malloc_tells (fuel : Nat) {h : Heap} {size n : Nat} (hroom : HasRoom h k (size + sizeofAlloc + n)) :
    ∃ p h' k', HasRoom h' k' n ∧ MemoryOnly k k' ∧
      Tells m k (malloc (fuel + 1) size h) (p, h') k' [] := by
  obtain ⟨p, h', hrun, hleft⟩ := hroom.malloc fuel
  refine ⟨p, h', { k with machine := { k.machine with mem := h'.mem } }, hleft, ⟨h'.mem, rfl⟩,
    Tells.silent ?_⟩
  show (Memory.malloc (fuel + 1) size { h with mem := k.machine.mem }).bind _ = _
  rw [hrun]
  rfl

theorem irqInstallHandler_tells (irq : Nat) (hirq : irq < 16) (handler : IrqRoutine) :
    Tells m k (irqInstallHandler m o irq handler) ()
      { k with irqRoutines := System.irqInstallHandler irq handler k.irqRoutines }
      (installedText irq) := by
  have hformat : literal "Handler at position %i has been installed\n" =
      [literal "Handler at position ", ['%', 'i'].map byte, literal " has been installed\n"].flatten := by
    decide +kernel
  -- no handler is a null pointer, so the other message is never printed
  have hslot : (System.irqInstallHandler irq handler k.irqRoutines).slot irq = some handler :=
    SlotTable.slot_put_self _ hirq _
  refine Tells.after rfl (Tells.after rfl ?_)
  rw [hslot, if_pos Option.isSome_some]
  exact Tells.say [.text "Handler at position " (by decide +kernel) (by decide +kernel),
    .signed 'i' (UInt32.ofNat irq) (.inr rfl),
    .text " has been installed\n" (by decide +kernel) (by decide +kernel)] [] hformat rfl (by simp)

theorem ataInstall_tells (fuel : Nat) (drive : Bool) {h : Heap} {n : Nat}
    (hroom : HasRoom h k (512 + sizeofAlloc + n)) :
    ∃ h' k₁, HasRoom h' k₁ n ∧ MemoryOnly k k₁ ∧
      Tells m k (ataInstall m o (fuel + 1) drive h) h'
        { k₁ with irqRoutines := System.ataInstall k₁.irqRoutines }
        (printed (literal "Loading ATA Drives\n") ++ (installedText 14 ++ (installedText 15 ++
          if drive then printed (literal "Located Primary Master drive!\n") else []))) := by
  obtain ⟨p, h', k₁, hleft, hmem, hmalloc⟩ := @malloc_tells m k fuel h 512 n hroom
  refine ⟨h', k₁, hleft, hmem, ?_⟩
  refine (Tells.plain (by decide +kernel) (by decide +kernel)).bind ?_
  refine hmalloc.quiet ?_
  refine (irqInstallHandler_tells 14 (by decide) .primaryIrq).bind ?_
  refine (irqInstallHandler_tells 15 (by decide) .secondaryIrq).bind ?_
  cases drive with
  | false => exact Tells.pure h'
  | true => exact (Tells.plain (by decide +kernel) (by decide +kernel)).returns h'

theorem createTaskManager_tells (fuel : Nat) {h : Heap} {n : Nat}
    (hroom : HasRoom h k (sizeofTaskManager + sizeofAlloc + n)) :
    ∃ h' k₁, HasRoom h' k₁ n ∧ MemoryOnly k k₁ ∧
      Tells m k (createTaskManager (fuel + 1) h) h'
        (k₁.withThreads { k₁.clock.threads with manager := System.createTaskManager }) [] := by
  obtain ⟨p, h', k₁, hleft, hmem, hmalloc⟩ := @malloc_tells m k fuel h _ n hroom
  exact ⟨h', k₁, hleft, hmem, hmalloc.bind (Tells.after rfl (Tells.pure h'))⟩

theorem taskCreate_tells (fuel : Nat) (pid priority functionPtr stack : UInt32) {h : Heap} {n : Nat}
    (hroom : HasRoom h k (sizeofTask + sizeofAlloc + (4096 * sizeofInt + sizeofAlloc + n))) :
    ∃ h' k₁, HasRoom h' k₁ n ∧ MemoryOnly k k₁ ∧
      Tells m k (taskCreate (fuel + 1) pid priority functionPtr stack h)
        (System.taskCreate pid priority functionPtr stack, h') k₁ [] := by
  obtain ⟨p, h₁, k₁, hroom₁, hmem₁, htask⟩ := @malloc_tells m k fuel h _ _ hroom
  obtain ⟨q, h₂, k₂, hroom₂, hmem₂, harr⟩ := @malloc_tells m k₁ fuel h₁ _ n hroom₁
  have hstack : Tells m k₁ (createTaskStack (fuel + 1) stack h₁) (stack, h₂) k₂ [] :=
    harr.bind (Tells.pure (stack, h₂))
  exact ⟨h₂, k₂, hroom₂, hmem₁.trans hmem₂, htask.bind (hstack.bind (Tells.pure _))⟩

theorem addTask_tells {ts : List Task} (h : Loaded ts k.clock.threads) (hroom : ts.length < 256)
    (t : Task) : ∃ s, Loaded (ts ++ [t]) s ∧
      Tells m k (addTask m o 0 t) () (k.withThreads s) (createdText t.currIns) := by
  have hformat : literal "Task for instruction at location %p successfully created\n" =
      [literal "Task for instruction at location ", ['%', 'p'].map byte,
        literal " successfully created\n"].flatten := by
    decide +kernel
  obtain ⟨s, hadd, hs⟩ := h.add hroom t
  have hfull : ¬managerFull k.clock.threads.manager = true := by
    unfold managerFull
    rw [decide_eq_true_iff]
    exact ne_of_toNat h.num (Nat.ne_of_lt hroom)
  refine ⟨s, hs, Tells.after rfl ?_⟩
  rw [if_neg hfull]
  have hrun : (fun k : Kernel => (System.addTask 0 k.clock.threads t).bind
      fun s => some ((), k.withThreads s)) k = some ((), k.withThreads s) := by
    simp only [hadd, Option.bind_some]
  exact Tells.after hrun (Tells.say [.text "Task for instruction at location " (by decide +kernel)
    (by decide +kernel), .pointer t.currIns,
    .text " successfully created\n" (by decide +kernel) (by decide +kernel)] [] hformat rfl (by simp))

/-! ## The tasks -/

/-- What the functions of the two tasks show. -/
def testText (img : Image o.strings) (f : UInt32) : List Int8 :=
  printed (literal (if f = img.printTestA then "10" else "20")) ++ printed (literal "\n")

theorem line_tells (v : UInt32) (digits : String)
    (hdigits : renderInt v.toNat Piece.signedFlags 10 0 0 = literal digits) :
    Tells m k (do
      say m o "%d" [.int v.toBitVec]
      say m o "\n" []) () k (printed (literal digits) ++ printed (literal "\n")) := by
  have hformat : literal "%d" = [['%', 'd'].map byte].flatten := by decide +kernel
  have hnumber := @Tells.say m o k [.signed 'd' v (.inl rfl)] [] _ _ hformat rfl (by simp)
  rw [show [Piece.signed 'd' v (.inl rfl)].flatMap Piece.out = literal digits from
    (List.append_nil _).trans hdigits] at hnumber
  exact hnumber.bind (Tells.plain (by decide +kernel) (by decide +kernel))

theorem function_tells {stackA stackB : UInt32} :
    ∀ t ∈ tests o img stackA stackB, ∀ k, Tells m k (function m o img t.currIns) () k
      (testText img t.currIns) := by
  intro t ht k
  rcases List.mem_pair.mp ht with rfl | rfl
  · show Tells m k (if img.printTestA = img.printTestA then _ else _) () k _
    unfold testText
    rw [if_pos rfl, show (System.taskCreate 0 0 img.printTestA stackA).currIns = img.printTestA from rfl,
      if_pos rfl]
    exact line_tells 10 "10" (by decide +kernel)
  · have hne : img.printTestB ≠ img.printTestA := img.apart.symm
    show Tells m k (if img.printTestB = img.printTestA then _ else if img.printTestB = img.printTestB
      then _ else _) () k _
    unfold testText
    rw [if_neg hne, if_pos rfl,
      show (System.taskCreate 1 1 img.printTestB stackB).currIns = img.printTestB from rfl, if_neg hne]
    exact line_tells 20 "20" (by decide +kernel)

/-! ## From `main` on -/

theorem addTests_tells (fuel : Nat) (hloaded : Loaded [] k.clock.threads) (stackA stackB : UInt32)
    {h : Heap} {n : Nat}
    (hroom : HasRoom h k (sizeofTask + sizeofAlloc + (4096 * sizeofInt + sizeofAlloc +
      (sizeofTask + sizeofAlloc + (4096 * sizeofInt + sizeofAlloc + n))))) :
    ∃ s k₁, Loaded (tests o img stackA stackB) s ∧ MemoryOnly k k₁ ∧
      Tells m k (addTests m o img (fuel + 1) stackA stackB h) () (k₁.withThreads s)
        (createdText img.printTestA ++ createdText img.printTestB) := by
  obtain ⟨h₁, k₁, hroom₁, hmem₁, hfirst⟩ :=
    @taskCreate_tells m k fuel 0 0 img.printTestA stackA h _ hroom
  obtain ⟨h₂, k₂, -, hmem₂, hsecond⟩ :=
    @taskCreate_tells m k₁ fuel 1 1 img.printTestB stackB h₁ n hroom₁
  have hmem := hmem₁.trans hmem₂
  have hloaded₂ : Loaded [] k₂.clock.threads := by
    obtain ⟨mem, rfl⟩ := hmem
    exact hloaded
  obtain ⟨s₁, hs₁, hadd₁⟩ := @addTask_tells m o k₂ _ hloaded₂ (Nat.zero_lt_succ _)
    (System.taskCreate 0 0 img.printTestA stackA)
  obtain ⟨s₂, hs₂, hadd₂⟩ := @addTask_tells m o (k₂.withThreads s₁) _ hs₁
    (Nat.succ_lt_succ (Nat.zero_lt_succ _)) (System.taskCreate 1 1 img.printTestB stackB)
  exact ⟨s₂, k₂, hs₂, hmem, hfirst.quiet (hsecond.quiet (hadd₁.bind hadd₂))⟩

theorem version_tells : Tells m k (say m o "Running NeutrinoOS Version %d.%d.%d!\n"
    [.int (0 : UInt32).toBitVec, .int (3 : UInt32).toBitVec, .int (43 : UInt32).toBitVec]) () k
    (printed (literal "Running NeutrinoOS Version 0.3.43!\n")) := by
  have hformat : literal "Running NeutrinoOS Version %d.%d.%d!\n" =
      [literal "Running NeutrinoOS Version ", ['%', 'd'].map byte, literal ".", ['%', 'd'].map byte,
        literal ".", ['%', 'd'].map byte, literal "!\n"].flatten := by
    decide +kernel
  have hout : literal "Running NeutrinoOS Version 0.3.43!\n" =
      [literal "Running NeutrinoOS Version ", renderInt (0 : UInt32).toNat Piece.signedFlags 10 0 0,
        literal ".", renderInt (3 : UInt32).toNat Piece.signedFlags 10 0 0, literal ".",
        renderInt (43 : UInt32).toNat Piece.signedFlags 10 0 0, literal "!\n"].flatten := by
    decide +kernel
  rw [hout]
  exact Tells.say [.text "Running NeutrinoOS Version " (by decide +kernel) (by decide +kernel),
    .signed 'd' 0 (.inl rfl), .text "." (by decide +kernel) (by decide +kernel),
    .signed 'd' 3 (.inl rfl), .text "." (by decide +kernel) (by decide +kernel),
    .signed 'd' 43 (.inl rfl), .text "!\n" (by decide +kernel) (by decide +kernel)] [] hformat rfl
    (by simp)

/-- The installation changes memory and what is written to the ports. -/
theorem interruptsInstall_keeps (l : IdtLayout) (isr : Fin 32 → UInt32) (irq : Fin 16 → UInt32)
    (k : Kernel) : ∃ idtr k', interruptsInstall l isr irq k = some (idtr, k') ∧
      k'.irqRoutines = k.irqRoutines ∧ k'.clock = k.clock ∧ k'.keyboard = k.keyboard ∧
      k'.machine.dev.scancodes = k.machine.dev.scancodes ∧
      k'.machine.mem = (installInterrupts l isr irq k.machine.mem).2 := by
  obtain ⟨idtr, k', hrun, hrest⟩ : ∃ idtr k', interruptsInstall l isr irq k = some (idtr, k') ∧
      k'.irqRoutines = k.irqRoutines ∧ k'.clock = k.clock ∧ k'.keyboard = k.keyboard ∧
      k'.machine.dev.scancodes = k.machine.dev.scancodes :=
    ⟨_, _, rfl, rfl, rfl, rfl, rfl⟩
  obtain ⟨k'', hspec, hmem, -⟩ := interruptsInstall_spec l isr irq k
  obtain ⟨-, rfl⟩ := Prod.mk.inj (Option.some.inj (hspec.symm.trans hrun))
  exact ⟨idtr, k'', hrun, hrest.1, hrest.2.1, hrest.2.2.1, hrest.2.2.2, hmem⟩

/-- What `main` allocates, in the order of the calls, and what that takes up. -/
def allocations : List Nat :=
  [512, sizeofTaskManager, sizeofTask, 4096 * sizeofInt, sizeofTask, 4096 * sizeofInt]

def allocated : Nat := (allocations.map (· + sizeofAlloc)).sum

/-- The usable regions of a map, as `_reserve_area` leaves them: there are some above `NULL`, each of them
has room for what `main` allocates, and the table of the interrupts is not in their first headers. -/
structure Roomy (l : IdtLayout) (ds : List Desc) : Prop where
  sane : SaneRegions ds
  above : ∃ d ∈ ds, d.base ≠ 0
  room : ∀ d ∈ ds, d.base ≠ 0 → allocated ≤ d.room
  beside : ∀ d ∈ ds, d.base ≠ 0 → ∀ x, d.base ≤ x → x < d.base + sizeofAlloc →
    (x < l.idt ∨ l.idt + 2048 ≤ x) ∧ (x < l.idtp ∨ l.idtp + 6 ≤ x)

/-- The installation leaves the room that `memory_init` found. -/
theorem Roomy.hasRoom {l : IdtLayout} {t t' : E820} {mem : ByteMemory} {h : Heap}
    (hm : Roomy l (t.reserveArea 0x7C00 0xB8400).usable) (isr : Fin 32 → UInt32) (irq : Fin 16 → UInt32)
    (hinit : Memory.memoryInit t ⟨mem, 0, 0, []⟩ = Option.some (t', h)) {k : Kernel}
    (hmem : k.machine.mem = (installInterrupts l isr irq h.mem).2) : HasRoom h k allocated := by
  obtain ⟨d, hd, hbase, hcur, htop, hroom⟩ := Memory.memoryInit_room rfl hm.sane hm.above hinit
  have hsize : field k.machine.mem .size h.currentAlloc = field h.mem .size h.currentAlloc := by
    rw [hmem, hcur]
    refine Memory.field_congr _ fun x hlo hhi => ?_
    obtain ⟨hidt, hidtp⟩ := hm.beside d hd hbase x hlo hhi
    exact installInterrupts_outside hidt hidtp
  refine ⟨?_, ?_⟩
  · show h.currentAlloc + sizeofAlloc + field k.machine.mem .size h.currentAlloc ≤ 2 ^ 32
    rwa [hsize]
  · show allocated ≤ field k.machine.mem .size h.currentAlloc
    rw [hsize]
    exact (hm.room d hd hbase).trans hroom

/-- The messages in the order of the calls of `main`. -/
theorem mainText_eq (img : Image o.strings) (t : E820) (total : UInt64) (drive : Bool) :
    mainText img t total drive = memoryText t total ++ (printed (literal "Entered Kernel\n") ++
      (installedText 0 ++ (installedText 1 ++ ((printed (literal "Loading ATA Drives\n") ++
        (installedText 14 ++ (installedText 15 ++
          if drive then printed (literal "Located Primary Master drive!\n") else []))) ++
        (printed (literal "Running NeutrinoOS Version 0.3.43!\n") ++
          (createdText img.printTestA ++ createdText img.printTestB)))))) := by
  unfold mainText
  simp only [List.flatten_cons, List.flatten_nil, List.append_nil, List.append_assoc]

/-- **`main`** leaves the handlers installed and the two tasks in the table. -/
theorem main_tells (img : Image o.strings) (mem : ByteMemory) (codes : List UInt8) {t : E820}
    (hm : Roomy img.idt (t.reserveArea 0x7C00 0xB8400).usable) (fuel : Nat)
    (drive : Bool) (stackA stackB : UInt32) :
    ∃ t' h k', Memory.memoryInit t ⟨mem, 0, 0, []⟩ = some (t', h) ∧
      Ticking (tests o img stackA stackB) 1 0 k' ∧ k'.keyboard = Keyboard.boot ∧
      k'.machine.dev.scancodes = codes ∧
      Tells m (booting mem codes) (main m o img (fuel + 1) t drive stackA stackB) () k'
        (mainText img t' (UInt64.ofNat h.totalMemory) drive) := by
  obtain ⟨t', h, hinit⟩ : ∃ t' h, Memory.memoryInit t ⟨mem, 0, 0, []⟩ = some (t', h) := by
    obtain ⟨new, hinit⟩ := Memory.memoryInit_run t ⟨mem, 0, 0, []⟩
    exact ⟨_, _, hinit⟩
  obtain ⟨idtr, k₁, hinstall, hroutines, hclock, hkeyboard, hcodes, hmem⟩ :=
    interruptsInstall_keeps img.idt img.isr img.irq
      { booting mem codes with machine := { (booting mem codes).machine with mem := h.mem } }
  have hroom := hm.hasRoom img.isr img.irq hinit hmem
  -- the states in which the three allocating functions are called
  obtain ⟨h₂, k₂, hroom₂, ⟨mem₂, hk₂⟩, hata⟩ := @ataInstall_tells m o
    { k₁ with irqRoutines := keyboardInstall (timerInstall k₁.irqRoutines) } fuel drive h _ hroom
  obtain ⟨h₃, k₃, hroom₃, ⟨mem₃, hk₃⟩, hmanager⟩ := @createTaskManager_tells m
    { k₂ with irqRoutines := System.ataInstall k₂.irqRoutines } fuel h₂ _ hroom₂
  have hloaded : Loaded []
      (k₃.withThreads { k₃.clock.threads with manager := System.createTaskManager }).clock.threads := by
    rw [hk₃, hk₂, Kernel.withThreads, hclock]
    exact Loaded.boot
  obtain ⟨s, k₄, hs, ⟨mem₄, hk₄⟩, htests⟩ :=
    @addTests_tells m o img _ fuel hloaded stackA stackB h₃ 0 hroom₃
  refine ⟨t', h, k₄.withThreads s, hinit, ⟨?_, ?_, ?_⟩, ?_, ?_, ?_⟩
  · rw [hk₄, hk₃, hk₂]
    show System.ataInstall (keyboardInstall (timerInstall k₁.irqRoutines)) = installed
    rw [hroutines]
    rfl
  · rw [hk₄, hk₃, hk₂]
    show k₁.clock.timerTicks = 0
    rw [hclock]
    rfl
  · -- the scheduler starts with the task added last
    exact hs.rotating (t := System.taskCreate 1 1 img.printTestB stackB) rfl (Nat.lt_succ_self 1)
  · rw [hk₄, hk₃, hk₂]
    exact hkeyboard
  · rw [hk₄, hk₃, hk₂]
    exact hcodes
  rw [mainText_eq]
  -- from here on one step for each call in `main`
  refine (memoryInit_tells hinit).bind ?_
  refine (Tells.plain (by decide +kernel) (by decide +kernel)).bind ?_
  refine Tells.after hinstall ?_
  refine (irqInstallHandler_tells 0 (by decide) .timerHandler).bind ?_
  refine (irqInstallHandler_tells 1 (by decide) .keyboardHandler).bind ?_
  exact hata.bind (hmanager.quiet (version_tells.bind htests))

/-- What requests show once `main` has returned. -/
def afterText (codes : List UInt8) (irqs : List (Fin 16)) : List Int8 :=
  requestsText [printed (literal "20") ++ printed (literal "\n"),
    printed (literal "10") ++ printed (literal "\n")] 0 Keyboard.boot codes irqs

theorem runTexts_tests (stackA stackB : UInt32) :
    runTexts (testText img) (tests o img stackA stackB) 1 =
      [printed (literal "20") ++ printed (literal "\n"),
        printed (literal "10") ++ printed (literal "\n")] := by
  show [testText img img.printTestB, testText img img.printTestA] = _
  unfold testText
  rw [if_neg img.apart.symm, if_pos rfl]

end Messages

/-! ### The first second -/

/-- Two strings at some addresses. -/
def someStrings : Strings := fun addr =>
  if addr = 0x9000 then some ⟨literal "<available>", by decide +kernel, by decide +kernel⟩
  else if addr = 0x9010 then some ⟨literal "<reserved>", by decide +kernel, by decide +kernel⟩
  else none

def someOutput : Output := ⟨lerpByte, lerpByte_exact, someStrings, fun _ _ => 0xFF⟩

def someImage : Image someOutput.strings where
  idt := someTable
  isr := fun n => 0x300 + 16 * UInt32.ofNat n
  irq := fun n => 0x500 + 16 * UInt32.ofNat n
  available := ⟨0x9000, _, rfl, by decide, rfl⟩
  reserved := ⟨0x9010, _, rfl, by decide, rfl⟩
  printTestA := 0x1000
  printTestB := 0x1100
  apart := by decide

/-- The memory above a megabyte, with the table below it. -/
theorem someImage_roomy : Roomy someImage.idt (Memory.pcRegions.reserveArea 0x7C00 0xB8400).usable := by
  rw [Memory.pcRegions_usable]
  refine ⟨⟨by decide, by decide, by decide⟩, ⟨_, .tail _ (.head _), by decide⟩, by decide, ?_⟩
  intro d hd hbase x hlo _
  rcases List.mem_pair.mp hd with rfl | rfl
  · exact absurd rfl hbase
  · have hhigh : 0x100000 ≤ x := hlo
    exact ⟨.inr (le_trans (by decide) hhigh), .inr (le_trans (by decide) hhigh)⟩

theorem first_second_text : afterText [0x1E] (1 :: List.replicate 18 0) = (literal
    "aEntering scheduler\n20\nTask has completed running\nThere are 1 tasks left.\n").map UInt8.toInt8 := by
  decide +kernel

end Neutrino.System.OnScreen
