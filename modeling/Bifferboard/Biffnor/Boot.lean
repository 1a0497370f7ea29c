import Bifferboard.Biffnor.Chunks

/-!
# `/dev/biffboot`

The bootloader device collects a 64 KB image over any number of writes. Once
it is complete, and looks like Biffboot, the top sector is erased and
programmed. `Held` ties the write buffer to the bytes the calls supplied, and
`BootState` adds the flash to it: untouched until the image is usable, then
`installed`.
-/

namespace Bifferboard
open Nor

/-- `struct biffboot_fp_private`. -/
structure BiffbootFpPrivate where
  filepos : Nat
  readBuffer : Nat → Byte
  writeBuffer : Nat → Byte
  writeBufferPos : Nat
  writeBufferPos_le : writeBufferPos ≤ 0x10000

/-- What `kzalloc` returns; `biffboot_open` leaves it as it is. -/
def BiffbootFpPrivate.fresh : BiffbootFpPrivate := ⟨0, fun _ => 0#8, fun _ => 0#8, 0, Nat.zero_le _⟩

def biffbootOpen (allocated : Bool) : Except Int BiffbootFpPrivate :=
  if allocated then .ok .fresh else .error (-ENOMEM)

/-- `copy_from_user` of a buffer that fits, and the new position. -/
def BiffbootFpPrivate.copyIn (priv : BiffbootFpPrivate) (ubuf : List Byte)
    (fits : priv.writeBufferPos + ubuf.length ≤ 0x10000) : BiffbootFpPrivate where
  filepos := priv.filepos
  readBuffer := priv.readBuffer
  writeBuffer := fun i =>
    if priv.writeBufferPos ≤ i ∧ i < priv.writeBufferPos + ubuf.length then
      ubuf.getD (i - priv.writeBufferPos) 0#8
    else priv.writeBuffer i
  writeBufferPos := priv.writeBufferPos + ubuf.length
  writeBufferPos_le := fits

/-- An open handle together with the world its calls act on. -/
structure BootFile (σ : Type) where
  priv : BiffbootFpPrivate
  world : World σ

/-- The text `sanity_check` looks for. -/
def biffbootText : List Byte := "Biffboot".toList.map fun c => BitVec.ofNat 8 c.toNat

/-- Is it Biffboot, does it have a JMP at the entry point, and is the last
byte set correctly? -/
def sanityCheck (writeBuffer : Nat → Byte) : Bool :=
  if (List.range 8).map (fun i => writeBuffer (0xff00 + i)) ≠ biffbootText then false
  else if writeBuffer 0xfff0 ≠ 0xe9#8 then false
  else if writeBuffer 0xfff1 ≠ 0x0a#8 then false
  else if writeBuffer 0xfff2 ≠ 0xf1#8 then false
  else if writeBuffer 0xffff ≠ 0xff#8 then false
  else true

section
variable {σ : Type} (B : Bus σ) (fm : Flashmap)

/-- Read from NOR into the biffboot buffer. -/
def biffbootBufferRead (f : BootFile σ) : BootFile σ :=
  let w := f.world.note (.printk "BIFFBOOT: Reading biffboot area\n")
  let loaded := eonReadRange B fm.kernelSize f.priv.readBuffer 0x10000 w
  ⟨{ f.priv with readBuffer := loaded.1 }, loaded.2⟩

/-- `biffboot_read`: the bytes it copies to the user, whose number is its
return value. -/
def biffbootRead (remaining : Nat) (f : BootFile σ) : List Byte × BootFile σ :=
  if remaining = 0 then ([], f)
  else if 0x10000 ≤ f.priv.filepos then ([], f)
  else
    let loaded := biffbootBufferRead B fm f
    let toread := min (0x10000 - f.priv.filepos) remaining
    let data := (List.range toread).map fun i => loaded.priv.readBuffer (f.priv.filepos + i)
    let rest := biffbootRead (remaining - toread)
      ⟨{ loaded.priv with filepos := f.priv.filepos + toread }, loaded.world⟩
    (data ++ rest.1, rest.2)
termination_by remaining
decreasing_by omega

/-- The loop of `WriteSector` from `count` on. What `EON_ProgramWord` returns
is dropped. -/
def writeSectorFrom (priv : BiffbootFpPrivate) (count : Nat) (w : World σ) : World σ :=
  if count < priv.writeBufferPos then
    writeSectorFrom priv (count + 2)
      (eonProgramWord B fm (count + fm.kernelSize) (asShorts priv.writeBuffer (count / 2)) w).2
  else w
termination_by priv.writeBufferPos - count

def writeSector (priv : BiffbootFpPrivate) (w : World σ) : World σ := writeSectorFrom B fm priv 0 w

/-- The part of `biffboot_write` behind the sanity check. What
`EON_EraseSector` returns is dropped. -/
def flashBoot (priv : BiffbootFpPrivate) (w : World σ) : World σ :=
  let w := w.note (.printk "BIFFBOOT: Sanity check passed, erasing BIOS area\n")
  let w := (eonEraseSector B fm fm.kernelSize w).2
  let w := w.note (.printk "BIFFBOOT: Writing data, do not switch off until complete\n")
  let w := writeSector B fm priv w
  w.note (.printk "BIFFBOOT: BIOS area written.  Please reboot.\n")

def biffbootWrite (ubuf : List Byte) (f : BootFile σ) : Int × BootFile σ :=
  if fits : f.priv.writeBufferPos + ubuf.length ≤ 0x10000 then
    let priv := f.priv.copyIn ubuf fits
    if priv.writeBufferPos = 0x10000 then
      let w := f.world.note (.printk "BIFFBOOT: Write buffer is full, writing to flash now\n")
      if sanityCheck priv.writeBuffer = false then
        (-EINVAL, ⟨priv, w.note (.printk
          "BIFFBOOT: Doesn't look like Biffboot, refusing to flash it, sorry.\n")⟩)
      else (ubuf.length, ⟨priv, flashBoot B fm priv w⟩)
    else (ubuf.length, ⟨priv, f.world⟩)
  else (-EINVAL, f)

end

/-! ## Sequences of calls -/

inductive BootOp where
  | read (count : Nat)
  | write (ubuf : List Byte)
  deriving DecidableEq, Repr

section
variable {σ : Type} (B : Bus σ) (fm : Flashmap)

/-- One call: its return value and the state it leaves. -/
def BootOp.call (op : BootOp) (f : BootFile σ) : Int × BootFile σ :=
  match op with
  | .read count =>
    let done := biffbootRead B fm count f
    (done.1.length, done.2)
  | .write ubuf => biffbootWrite B fm ubuf f

/-- The return values of a sequence of calls, and the state after it. -/
def runBoot : List BootOp → BootFile σ → List Int × BootFile σ
  | [], f => ([], f)
  | op :: ops, f =>
    let done := op.call B fm f
    let rest := runBoot ops done.2
    (done.1 :: rest.1, rest.2)

end

/-! ## What the calls supply -/

/-- The image as it grows: a write that does not fit is refused as a whole. -/
def supply (image : List Byte) : BootOp → List Byte
  | .read _ => image
  | .write ubuf => if image.length + ubuf.length ≤ 0x10000 then image ++ ubuf else image

/-- The image a sequence of calls has supplied. -/
def supplied (ops : List BootOp) : List Byte := ops.foldl supply []

/-- Complete, and accepted by `sanity_check`. -/
def Usable (image : List Byte) : Prop :=
  image.length = 0x10000 ∧ sanityCheck (image.getD · 0#8) = true

instance (image : List Byte) : Decidable (Usable image) := inferInstanceAs (Decidable (_ ∧ _))

/-- The flash with an image in its boot sector. -/
def installed (fm : Flashmap) (image : List Byte) (mem : Mem) : Mem := fun x =>
  if fm.kernelSize ≤ x ∧ x < fm.size then image.getD (x - fm.kernelSize) 0#8 else mem x

theorem installed_installed (fm : Flashmap) (image image' : List Byte) (mem : Mem) :
    installed fm image (installed fm image' mem) = installed fm image mem := by
  funext x
  by_cases inside : fm.kernelSize ≤ x ∧ x < fm.size
  · simp only [installed, inside, and_self, ↓reduceIte]
  · simp only [installed, inside, ↓reduceIte]

/-- The write buffer holds the image supplied so far. -/
structure Held (image : List Byte) (priv : BiffbootFpPrivate) : Prop where
  pos : priv.writeBufferPos = image.length
  buffer : priv.writeBuffer = (image.getD · 0#8)

theorem Held.fresh : Held [] .fresh := ⟨rfl, rfl⟩

theorem Held.copyIn {image : List Byte} {priv : BiffbootFpPrivate} (h : Held image priv)
    (ubuf : List Byte) (fits : priv.writeBufferPos + ubuf.length ≤ 0x10000) :
    Held (image ++ ubuf) (priv.copyIn ubuf fits) where
  pos := by
    rw [List.length_append, ← h.pos]
    rfl
  buffer := by
    funext i
    have old : priv.writeBuffer i = image.getD i 0#8 := congrFun h.buffer i
    simp only [BiffbootFpPrivate.copyIn, h.pos, old, List.getD_eq_getElem?_getD]
    by_cases before : i < image.length
    · rw [if_neg (by omega), List.getElem?_append_left before]
    · rw [List.getElem?_append_right (by omega)]
      split
      · rfl
      · rw [List.getElem?_eq_none (by omega), List.getElem?_eq_none (by omega)]

/-! ## On a NOR chip -/

section
variable (g : Geometry) (t : Timing)

/-- The boot sector is the last one. -/
theorem boot_sector (g : Geometry) :
    g.layout.start g.kernelSize = g.kernelSize ∧ g.layout.stop g.kernelSize = g.size := by
  obtain rfl | rfl | rfl := g.cases <;> decide

theorem kernelSize_lt_size : g.kernelSize < g.size := by
  have := g.sized.size_eq
  omega

theorem writeSectorFrom_nor (priv : BiffbootFpPrivate) {count : Nat} {w : World Chip}
    (ready : w.hw.Ready) (even : count % 2 = 0) (whole : priv.writeBufferPos = 0x10000)
    (inside : count ≤ 0x10000) :
    (writeSectorFrom (g.part t).bus g.toFlashmap priv count w).hw.Ready ∧
      (writeSectorFrom (g.part t).bus g.toFlashmap priv count w).hw.mem =
        w.hw.mem.programBytes (g.kernelSize + count) (0x10000 - count)
          (fun i => priv.writeBuffer (count + i)) := by
  have size := g.sized.size_eq
  generalize left : 0x10000 - count = n
  induction n using Nat.strongRecOn generalizing count w with
  | ind n ih =>
    rw [writeSectorFrom]
    by_cases more : count < priv.writeBufferPos
    · obtain ⟨k, programmed⟩ := eonProgramWord_nor g.toFlashmap t
        (show count + g.kernelSize < g.size by omega) (asShorts priv.writeBuffer (count / 2)) ready
      rw [if_pos more, programmed]
      obtain ⟨m, rfl⟩ : ∃ m, n = m + 2 := ⟨n - 2, by omega⟩
      obtain ⟨ready', mem⟩ := ih m (by omega)
        (w := ⟨w.hw.programmed (w.hw.mem.program (count + g.kernelSize)
          (asShorts priv.writeBuffer (count / 2))), w.trace ++ [.program (count + g.kernelSize)
          (asShorts priv.writeBuffer (count / 2))]⟩) (ready.programmed _)
        (show (count + 2) % 2 = 0 by omega) (by omega) (by omega)
      refine ⟨ready', mem.trans ?_⟩
      have word : asShorts priv.writeBuffer (count / 2) =
          Word.ofBytes (priv.writeBuffer (count + 0)) (priv.writeBuffer (count + 1)) := by
        rw [asShorts, show 2 * (count / 2) = count by omega]
        rfl
      have shifted : (fun i => priv.writeBuffer (count + 2 + i)) =
          fun i => priv.writeBuffer (count + (i + 2)) := by
        funext i
        rw [show count + 2 + i = count + (i + 2) by omega]
      rw [word, shifted, Nat.add_comm count g.kernelSize]
      exact Mem.programBytes_add_two w.hw.mem (g.kernelSize + count) m
        fun i => priv.writeBuffer (count + i)
    · rw [if_neg more, show n = 0 by omega, Mem.programBytes_zero]
      exact ⟨ready, rfl⟩

/-- Erasing the boot sector and programming a whole buffer installs it. -/
theorem erase_program_installed (g : Geometry) (image : List Byte) (mem : Mem) :
    (mem.erase g.kernelSize g.size).programBytes g.kernelSize 0x10000 (image.getD · 0#8) =
      installed g.toFlashmap image mem := by
  have size := g.sized.size_eq
  funext x
  by_cases inside : g.kernelSize ≤ x ∧ x < g.size
  · rw [Mem.programBytes_erased _ _ _ _ inside.1 (by omega) (mem.erase_inside inside.1 inside.2),
      installed, if_pos inside]
  · rw [Mem.programBytes_frame _ _ _ _ (by omega), mem.erase_frame (by omega), installed,
      if_neg inside]

theorem flashBoot_nor {image : List Byte} {priv : BiffbootFpPrivate} {w : World Chip}
    (held : Held image priv) (whole : image.length = 0x10000) (ready : w.hw.Ready) :
    (flashBoot (g.part t).bus g.toFlashmap priv w).hw.Ready ∧
      (flashBoot (g.part t).bus g.toFlashmap priv w).hw.mem =
        installed g.toFlashmap image w.hw.mem := by
  obtain ⟨n, erased⟩ := eonEraseSector_nor g.toFlashmap t (kernelSize_lt_size g)
    (w := w.note (.printk "BIFFBOOT: Sanity check passed, erasing BIOS area\n")) ready
  obtain ⟨start, stop⟩ := boot_sector g
  simp only [flashBoot, erased, start, stop, writeSector, World.note_hw]
  generalize stepped : World.note ⟨w.hw.programmed (w.hw.mem.erase g.kernelSize g.size), _⟩
    (.printk "BIFFBOOT: Writing data, do not switch off until complete\n") = w₁
  have hw₁ : w₁.hw = w.hw.programmed (w.hw.mem.erase g.kernelSize g.size) := by
    rw [← stepped]
    rfl
  obtain ⟨ready', mem⟩ := writeSectorFrom_nor g t priv (w := w₁)
    (hw₁ ▸ ready.programmed _) (Nat.zero_mod 2) (held.pos.trans whole) (Nat.zero_le _)
  refine ⟨ready', ?_⟩
  rw [mem, hw₁, ← erase_program_installed g image w.hw.mem]
  simp only [Nat.add_zero, Nat.sub_zero, Nat.zero_add, held.buffer]
  rfl

theorem biffbootBufferRead_hw {f : BootFile Chip} (ready : f.world.hw.Ready) :
    (biffbootBufferRead (g.part t).bus g.toFlashmap f).world.hw = f.world.hw := by
  have loaded := readRangeFrom_shows
    (w := f.world.note (.printk "BIFFBOOT: Reading biffboot area\n")) (ready.shows (g.part t))
    (0x10000 / 4) g.kernelSize 0 f.priv.readBuffer
  simp only [biffbootBufferRead, eonReadRange, loaded]
  rfl

/-- Reading leaves the chip and the write buffer as they were. -/
theorem biffbootRead_keeps (remaining : Nat) (f : BootFile Chip) (ready : f.world.hw.Ready)
    {image : List Byte} (held : Held image f.priv) :
    (biffbootRead (g.part t).bus g.toFlashmap remaining f).2.world.hw = f.world.hw ∧
      Held image (biffbootRead (g.part t).bus g.toFlashmap remaining f).2.priv := by
  fun_induction biffbootRead (g.part t).bus g.toFlashmap remaining f with
  | case1 => exact ⟨rfl, held⟩
  | case2 => exact ⟨rfl, held⟩
  | case3 remaining f _ more loaded toread data rest ih =>
    have hw : loaded.world.hw = f.world.hw := biffbootBufferRead_hw g t ready
    obtain ⟨hw', held'⟩ := ih (hw ▸ ready) ⟨held.pos, held.buffer⟩
    exact ⟨hw'.trans hw, held'⟩

/-- The state after the calls have supplied `image`, on a flash that held
`mem`. -/
structure BootState (mem : Mem) (image : List Byte) (f : BootFile Chip) : Prop where
  held : Held image f.priv
  ready : f.world.hw.Ready
  flash : f.world.hw.mem = if Usable image then installed g.toFlashmap image mem else mem

variable {g}

/-- A write that leaves the image short, or one `sanity_check` refuses, does
not touch the flash. A later empty write to a complete image flashes it again,
with the same result. -/
theorem BootState.call {mem : Mem} {image : List Byte} {f : BootFile Chip}
    (h : BootState g mem image f) (op : BootOp) :
    BootState g mem (supply image op) (op.call (g.part t).bus g.toFlashmap f).2 := by
  cases op with
  | read count =>
    obtain ⟨hw, held⟩ := biffbootRead_keeps g t count f h.ready h.held
    exact ⟨held, hw ▸ h.ready, hw ▸ h.flash⟩
  | write ubuf =>
    simp only [supply, BootOp.call, biffbootWrite]
    by_cases fits : f.priv.writeBufferPos + ubuf.length ≤ 0x10000
    · have held := h.held.copyIn ubuf fits
      have length := h.held.pos
      have grown : (image ++ ubuf).length = image.length + ubuf.length := List.length_append
      rw [dif_pos fits, if_pos (length ▸ fits)]
      by_cases whole : (f.priv.copyIn ubuf fits).writeBufferPos = 0x10000
      · rw [if_pos whole]
        have complete : (image ++ ubuf).length = 0x10000 := held.pos ▸ whole
        have again : Usable image → image ++ ubuf = image := by
          rintro ⟨already, -⟩
          rw [List.eq_nil_of_length_eq_zero (by omega : ubuf.length = 0), List.append_nil]
        have checked : sanityCheck (f.priv.copyIn ubuf fits).writeBuffer =
            sanityCheck ((image ++ ubuf).getD · 0#8) := congrArg sanityCheck held.buffer
        by_cases sane : sanityCheck ((image ++ ubuf).getD · 0#8) = true
        · have usable : Usable (image ++ ubuf) := ⟨complete, sane⟩
          obtain ⟨ready, flash⟩ := flashBoot_nor g t held complete
            (w := f.world.note (.printk "BIFFBOOT: Write buffer is full, writing to flash now\n"))
            h.ready
          rw [checked, sane, if_neg (by decide)]
          refine ⟨held, ready, flash.trans ?_⟩
          rw [if_pos usable, World.note_hw, h.flash]
          by_cases before : Usable image
          · rw [if_pos before, again before, installed_installed]
          · rw [if_neg before]
        · have refused : ¬ Usable (image ++ ubuf) := fun usable => sane usable.2
          rw [checked, if_pos (by simpa using sane)]
          refine ⟨held, h.ready, h.flash.trans ?_⟩
          rw [if_neg refused, if_neg fun before => refused ((again before).symm ▸ before)]
      · rw [if_neg whole]
        have short : (image ++ ubuf).length ≠ 0x10000 := held.pos ▸ whole
        refine ⟨held, h.ready, h.flash.trans ?_⟩
        have incomplete : ¬ Usable image := by
          rintro ⟨before, -⟩
          omega
        rw [if_neg incomplete, if_neg fun usable => short usable.1]
    · rw [dif_neg fits, if_neg (h.held.pos ▸ fits)]
      exact h

theorem BootState.run {mem : Mem} {image : List Byte} {f : BootFile Chip}
    (h : BootState g mem image f) (ops : List BootOp) :
    BootState g mem (ops.foldl supply image) (runBoot (g.part t).bus g.toFlashmap ops f).2 := by
  induction ops generalizing image f with
  | nil => exact h
  | cons op ops ih => exact ih (h.call t op)

/-- A fresh handle on a chip with contents `mem`. -/
def bootOn (mem : Mem) : BootFile Chip := ⟨.fresh, ⟨idleChip mem, []⟩⟩

theorem BootState.initial (mem : Mem) : BootState g mem [] (bootOn mem) where
  held := Held.fresh
  ready := idleChip_ready mem
  flash := (if_neg (by decide)).symm

/-- After any calls the flash is as it was, unless they have supplied a usable
image. -/
theorem runBoot_flash (mem : Mem) (ops : List BootOp) :
    (runBoot (g.part t).bus g.toFlashmap ops (bootOn mem)).2.world.hw.mem =
      if Usable (supplied ops) then installed g.toFlashmap (supplied ops) mem else mem :=
  ((BootState.initial mem).run t ops).flash

/-! ## A whole image -/

theorem supply_writes (image : List Byte) (calls : List (List Byte))
    (fits : image.length + calls.flatten.length ≤ 0x10000) :
    (calls.map BootOp.write).foldl supply image = image ++ calls.flatten := by
  induction calls generalizing image with
  | nil => simp
  | cons ubuf calls ih =>
    rw [List.flatten_cons, List.length_append] at fits
    rw [List.map_cons, List.foldl_cons, supply, if_pos (by omega),
      ih _ (by rw [List.length_append]; omega), List.flatten_cons, List.append_assoc]

/-- Writes that make up a usable image return their full counts. -/
theorem runBoot_returns {σ : Type} (B : Bus σ) (fm : Flashmap) {image : List Byte} {f : BootFile σ}
    (held : Held image f.priv) (calls : List (List Byte)) (usable : Usable (image ++ calls.flatten)) :
    (runBoot B fm (calls.map .write) f).1 = calls.map fun ubuf => (ubuf.length : Int) := by
  induction calls generalizing image f with
  | nil => rfl
  | cons ubuf calls ih =>
    have total := usable.1
    rw [List.flatten_cons, ← List.append_assoc] at usable
    rw [List.flatten_cons, List.length_append, List.length_append] at total
    have fits : f.priv.writeBufferPos + ubuf.length ≤ 0x10000 := by
      rw [held.pos]
      omega
    have held' := held.copyIn ubuf fits
    have step : ∃ w, (BootOp.write ubuf).call B fm f =
        ((ubuf.length : Int), ⟨f.priv.copyIn ubuf fits, w⟩) := by
      simp only [BootOp.call, biffbootWrite]
      rw [dif_pos fits]
      by_cases whole : (f.priv.copyIn ubuf fits).writeBufferPos = 0x10000
      · have length : image.length + ubuf.length = 0x10000 := by
          rw [← held.pos]
          exact whole
        have rest : calls.flatten = [] := List.eq_nil_of_length_eq_zero (by omega)
        rw [rest, List.append_nil] at usable
        have sane : sanityCheck (f.priv.copyIn ubuf fits).writeBuffer = true :=
          (congrArg sanityCheck held'.buffer).trans usable.2
        rw [if_pos whole, sane, if_neg (by decide)]
        exact ⟨_, rfl⟩
      · rw [if_neg whole]
        exact ⟨_, rfl⟩
    obtain ⟨w, call⟩ := step
    simp only [List.map_cons, runBoot, call]
    rw [ih (f := ⟨f.priv.copyIn ubuf fits, w⟩) held' usable]

end

/-! ## An image -/

/-- An image with nothing in it but what `sanity_check` looks for. -/
def bareBiffboot (i : Nat) : Byte :=
  if 0xff00 ≤ i ∧ i < 0xff08 then biffbootText.getD (i - 0xff00) 0#8
  else if i = 0xfff0 then 0xe9#8
  else if i = 0xfff1 then 0x0a#8
  else if i = 0xfff2 then 0xf1#8
  else if i = 0xffff then 0xff#8
  else 0#8

theorem getD_map_range (n : Nat) (f : Nat → Byte) (i : Nat) :
    ((List.range n).map f).getD i 0#8 = if i < n then f i else 0#8 := by
  rw [List.getD_eq_getElem?_getD, List.getElem?_map]
  by_cases inside : i < n
  · rw [List.getElem?_range inside, if_pos inside]
    rfl
  · rw [List.getElem?_eq_none (by simpa using inside), if_neg inside]
    rfl

theorem bareBiffboot_usable : Usable ((List.range 0x10000).map bareBiffboot) := by
  refine ⟨by rw [List.length_map, List.length_range], ?_⟩
  simp only [getD_map_range]
  decide

end Bifferboard
