import Bifferboard.Biffnor.Chunks

/-!
# Where written bytes land

`kept` lists the bytes that the writes of a session accept, each with the
position it was accepted at; a seek abandons those still in the buffer.
`buffer_write` computes the chunk from the file position at the time of the
flush and always writes from the start of the chunk, so a byte lands at its
position only while position and buffer agree. `Cursor.Straight` is what a call
must meet for that: a session whose calls all meet it programs the kept bytes, in
order and at their locations, and nothing else.
-/

namespace Bifferboard
open Nor

/-- Bytes with the positions from `pos` on. -/
def numbered : Nat → List Byte → List (Nat × Byte)
  | _, [] => []
  | pos, b :: bs => (pos, b) :: numbered (pos + 1) bs

/-- What a call does to the list of accepted bytes. -/
def Cursor.keep (fm : Flashmap) (c : Cursor) (acc : List (Nat × Byte)) : FileOp → List (Nat × Byte)
  | .read _ => acc
  | .write ubuf => acc ++ numbered c.filepos (ubuf.take (room fm c))
  | .seek offset whence =>
    match seekTarget fm c.filepos offset whence with
    | none => acc
    | some target => if target < 0 then acc else acc.take (acc.length - c.fill)

def keptFrom (fm : Flashmap) : Cursor → List (Nat × Byte) → List FileOp → List (Nat × Byte)
  | _, acc, [] => acc
  | c, acc, op :: ops => keptFrom fm (c.after fm op) (c.keep fm acc op) ops

/-- The bytes accepted in a session and not abandoned. -/
def kept (fm : Flashmap) (ops : List FileOp) : List (Nat × Byte) := keptFrom fm ⟨0, 0⟩ [] ops

/-- A write starts where the buffer stands, and a read does not carry a partly
filled buffer into another chunk. -/
def Cursor.Straight (fm : Flashmap) (c : Cursor) : FileOp → Prop
  | .write ubuf => ubuf = [] ∨ fm.kernelSize ≤ c.filepos ∨ c.filepos % 0x2000 = c.fill
  | .read count => c.fill = 0 ∨ flushChunk (c.after fm (.read count)).filepos = flushChunk c.filepos
  | .seek _ _ => True

/-- A byte with the flash offset of its position. -/
def located (fm : Flashmap) (pb : Nat × Byte) : Nat × Byte := (location fm pb.1, pb.2)

theorem map_located_placed (fm : Flashmap) (chunk : Nat) {count : Nat} (short : count ≤ 0x2000)
    (buffer : Nat → Byte) :
    (placed (chunk * 0x2000) count buffer).map (located fm) = placed (chunkSect fm chunk) count buffer := by
  unfold placed
  rw [List.map_map]
  apply List.map_congr_left
  intro i inside
  have bound := List.mem_range.mp inside
  have number : (chunk * 0x2000 + i) / 0x2000 = chunk := by omega
  have offset : (chunk * 0x2000 + i) % 0x2000 = i := by omega
  simp only [Function.comp, located, location, number, offset]

theorem placed_succ (start count : Nat) (buffer : Nat → Byte) :
    placed start (count + 1) buffer = placed start count buffer ++ [(start + count, buffer count)] := by
  simp [placed, List.range_succ]

theorem placed_congr (start : Nat) {count : Nat} {buffer buffer' : Nat → Byte}
    (same : ∀ i < count, buffer i = buffer' i) : placed start count buffer = placed start count buffer' := by
  apply List.map_congr_left
  intro i inside
  rw [same i (List.mem_range.mp inside)]

/-- The bytes in the buffer, at the positions where a flush would put them. -/
def KernelFpPrivate.pending (priv : KernelFpPrivate) : List (Nat × Byte) :=
  placed (flushChunk priv.filepos * 0x2000) priv.writeBufferPos priv.writeBuffer

theorem pending_empty {priv : KernelFpPrivate} (h : priv.writeBufferPos = 0) : priv.pending = [] := by
  simp [KernelFpPrivate.pending, placed, h]

/-- Where the buffer stands at the file position, the next byte goes there. -/
theorem pending_copyIn {priv : KernelFpPrivate} (b : Byte) (partly : priv.writeBufferPos < 0x2000)
    (bound : priv.filepos + 1 < 2 ^ 32) (aligned : priv.filepos % 0x2000 = priv.writeBufferPos) :
    (priv.copyIn [b]).pending = priv.pending ++ [(priv.filepos, b)] := by
  have chunk : flushChunk (priv.filepos + 1) = priv.filepos / 0x2000 := by
    unfold flushChunk
    split <;> omega
  have old : priv.pending = placed (priv.filepos / 0x2000 * 0x2000) priv.writeBufferPos
      priv.writeBuffer := by
    by_cases empty : priv.writeBufferPos = 0
    · rw [pending_empty empty, empty]
      rfl
    · rw [KernelFpPrivate.pending, flushChunk, if_neg (by omega)]
  have before : ∀ i < priv.writeBufferPos, (priv.copyIn [b]).writeBuffer i = priv.writeBuffer i := by
    intro i earlier
    rw [priv.copyIn_byte_writeBuffer b partly, if_neg (Nat.ne_of_lt earlier)]
  have last : (priv.copyIn [b]).writeBuffer priv.writeBufferPos = b := by
    rw [priv.copyIn_byte_writeBuffer b partly, if_pos rfl]
  have here : priv.filepos / 0x2000 * 0x2000 + priv.writeBufferPos = priv.filepos := by omega
  rw [KernelFpPrivate.pending, priv.copyIn_byte_filepos b partly, chunk,
    priv.copyIn_byte_writeBufferPos b partly, placed_succ, placed_congr _ before, last, ← old, here]

/-- Flushing an even number of bytes lands them. -/
theorem bufferWrite_lands (g : Geometry) (t : Timing) {f : File Chip} {done : List (Nat × Byte)}
    (ready : f.world.hw.Ready) (inside : flushChunk f.priv.filepos < g.chunkCount)
    (even : f.priv.writeBufferPos % 2 = 0)
    (programmed : programmedBytes f.world.trace = done.map (located g.toFlashmap)) :
    programmedBytes (bufferWrite (g.part t).bus g.toFlashmap f).world.trace =
      (done ++ f.priv.pending).map (located g.toFlashmap) := by
  obtain ⟨-, -, -, trace⟩ := bufferWrite_nor g t ready inside
  have whole : 2 * (f.priv.writeBufferPos / 2) = f.priv.writeBufferPos := by omega
  rw [trace, whole, programmed, List.map_append, KernelFpPrivate.pending,
    map_located_placed _ _ f.priv.writeBufferPos_le]

/-- The bytes accepted so far are those programmed at their locations, followed
by those in the buffer. -/
structure Landing (g : Geometry) (acc : List (Nat × Byte)) (f : File Chip) : Prop where
  inside : f.priv.cursor.Inside g.toFlashmap
  behind : f.priv.writeBufferPos ≤ f.priv.filepos
  ready : f.world.hw.Ready
  landed : ∃ done, acc = done ++ f.priv.pending ∧
    programmedBytes f.world.trace = done.map (located g.toFlashmap)

namespace Landing
variable {g : Geometry} (t : Timing) {acc : List (Nat × Byte)} {f : File Chip}

theorem fresh (mem : Mem) : Landing g [] ⟨.fresh, ⟨idleChip mem, []⟩⟩ where
  inside := fresh_inside
  behind := Nat.le_refl 0
  ready := idleChip_ready mem
  landed := ⟨[], rfl, rfl⟩

/-- One byte, accepted where the buffer stands. -/
theorem push (h : Landing g acc f) (b : Byte) (aligned : f.priv.filepos % 0x2000 = f.priv.writeBufferPos)
    (more : f.priv.filepos < g.kernelSize) :
    Landing g (acc ++ [(f.priv.filepos, b)]) (push (g.part t).bus g.toFlashmap f b) := by
  obtain ⟨done, eq, programmed⟩ := h.landed
  have upper := g.sized.upper
  have size := g.sized.kernelSize_eq
  have fill := h.inside.fill_lt
  have filepos := f.priv.copyIn_byte_filepos b fill
  have pos := f.priv.copyIn_byte_writeBufferPos b fill
  have pending := pending_copyIn b fill (by omega) aligned
  have behind := h.behind
  have buffered : f.priv.writeBufferPos + 1 ≤ 0x2000 := fill
  have accepted : ∃ done, acc ++ [(f.priv.filepos, b)] = done ++ (f.priv.copyIn [b]).pending ∧
      programmedBytes f.world.trace = done.map (located g.toFlashmap) :=
    ⟨done, by rw [pending, eq, List.append_assoc], programmed⟩
  unfold Bifferboard.push
  dsimp only
  by_cases full : (f.priv.copyIn [b]).writeBufferPos = 0x2000
  · obtain ⟨done', eq', programmed'⟩ := accepted
    have inside : flushChunk (f.priv.copyIn [b]).filepos < g.chunkCount := by
      rw [filepos]
      exact flushChunk_lt g.sized (Nat.succ_pos _) more
    obtain ⟨priv, ready, -, -⟩ := bufferWrite_nor g t (f := ⟨f.priv.copyIn [b], f.world⟩) h.ready inside
    rw [if_pos full]
    refine ⟨⟨?_, ?_⟩, ?_, ready, acc ++ [(f.priv.filepos, b)], ?_, ?_⟩
    · rw [priv]
      change (f.priv.copyIn [b]).filepos ≤ _
      omega
    · rw [priv]
      exact Nat.zero_lt_succ _
    · rw [priv]
      exact Nat.zero_le _
    · rw [priv, pending_empty rfl, List.append_nil]
    · rw [eq']
      exact bufferWrite_lands g t (f := ⟨f.priv.copyIn [b], f.world⟩) h.ready inside
        (by change (f.priv.copyIn [b]).writeBufferPos % 2 = 0; omega) programmed'
  · rw [if_neg full]
    refine ⟨⟨?_, ?_⟩, ?_, h.ready, accepted⟩
    · change (f.priv.copyIn [b]).filepos ≤ _
      omega
    · change (f.priv.copyIn [b]).writeBufferPos < _
      omega
    · dsimp only
      omega

/-- All the bytes of a write that starts where the buffer stands. -/
theorem foldl_push (xs : List Byte) (h : Landing g acc f)
    (aligned : f.priv.filepos % 0x2000 = f.priv.writeBufferPos)
    (fits : f.priv.filepos + xs.length ≤ g.kernelSize) :
    Landing g (acc ++ numbered f.priv.filepos xs)
      (xs.foldl (Bifferboard.push (g.part t).bus g.toFlashmap) f) := by
  induction xs generalizing acc f with
  | nil =>
    rw [numbered, List.append_nil]
    exact h
  | cons b xs ih =>
    rw [List.length_cons] at fits
    have filepos := push_filepos (g.part t).bus g.toFlashmap f b h.inside.fill_lt
    have fill := push_fill (g.part t).bus g.toFlashmap f b h.inside.fill_lt
    have rest := ih (h.push t b aligned (by omega)) (by omega) (by omega)
    rw [filepos, List.append_assoc] at rest
    exact rest

/-- Messages do not matter. -/
theorem note (h : Landing g acc f) (text : String) : Landing g acc ⟨f.priv, f.world.note (.printk text)⟩ where
  inside := h.inside
  behind := h.behind
  ready := h.ready
  landed := by
    obtain ⟨done, eq, programmed⟩ := h.landed
    refine ⟨done, eq, ?_⟩
    rw [← programmed, World.note_trace, programmedBytes_append]
    exact List.append_nil _

theorem read (h : Landing g acc f) (count : Nat)
    (straight : f.priv.cursor.Straight g.toFlashmap (.read count)) :
    Landing g acc (biffkernelRead (g.part t).bus g.toFlashmap count f).2 := by
  have moved := biffkernelRead_cursor (g.part t).bus g.sized count f
  have filepos := congrArg Cursor.filepos moved
  have fill : (biffkernelRead (g.part t).bus g.toFlashmap count f).2.priv.writeBufferPos =
      f.priv.writeBufferPos :=
    (congrArg Cursor.fill moved).trans (Cursor.after_read_fill f.priv.cursor count)
  have buffer := biffkernelRead_buffer (g.part t).bus g.toFlashmap count f
  have pending : (biffkernelRead (g.part t).bus g.toFlashmap count f).2.priv.pending =
      f.priv.pending := by
    rcases straight with empty | same
    · rw [pending_empty (fill.trans empty), pending_empty empty]
    · have chunk : flushChunk (biffkernelRead (g.part t).bus g.toFlashmap count f).2.priv.cursor.filepos =
          flushChunk f.priv.filepos := by
        rw [filepos]
        exact same
      change placed (flushChunk (KernelFpPrivate.cursor _).filepos * 0x2000) _ _ = _
      rw [chunk, fill, buffer]
      rfl
  have trace := (biffkernelRead_grows (g.part t).bus g.toFlashmap count f).programmedBytes_eq (by
    rintro e ⟨_, rfl⟩
    rfl)
  refine ⟨?_, ?_, ?_, ?_⟩
  · rw [moved]
    exact (Cursor.after_inside_iff g.sized h.inside (.read count)).mpr trivial
  · rw [fill]
    exact Nat.le_trans h.behind (by
      change _ ≤ (KernelFpPrivate.cursor _).filepos
      rw [moved]
      exact Cursor.le_after_read _ h.inside.filepos_le count)
  · rw [biffkernelRead_hw g t count f h.ready]
    exact h.ready
  · rw [pending, trace]
    exact h.landed

theorem seek (h : Landing g acc f) (offset whence : Int) :
    Landing g (f.priv.cursor.keep g.toFlashmap acc (.seek offset whence))
      (biffkernelSeek (g.part t).bus g.toFlashmap offset whence f).2 := by
  have upper := g.sized.upper
  have size := g.sized.kernelSize_eq
  unfold biffkernelSeek Cursor.keep
  change Landing g (match seekTarget g.toFlashmap f.priv.filepos offset whence with
    | none => _
    | some target => _) _
  cases seekTarget g.toFlashmap f.priv.filepos offset whence with
  | none => exact h
  | some target =>
    dsimp only
    by_cases negative : target < 0
    · rw [if_pos negative, if_pos negative]
      exact h.note _
    · rw [if_neg negative, if_neg negative]
      have noted := h.note ("BIFFKERNEL: Seeking to (" ++ fmtX (target % 2 ^ 64).toNat ++ ")\n")
      obtain ⟨done, eq, programmed⟩ := noted.landed
      generalize clipped : (if (g.kernelSize : Int) ≤ target then (g.kernelSize : Int) else target) = pos
      have bound : pos.toNat % 2 ^ 32 ≤ g.kernelSize := by
        rw [← clipped]
        split <;> omega
      have dropped : acc.take (acc.length - f.priv.cursor.fill) = done := by
        have length : f.priv.pending.length = f.priv.cursor.fill := by
          simp [KernelFpPrivate.pending, placed, KernelFpPrivate.cursor]
        rw [eq, List.length_append, length, Nat.add_sub_cancel, List.take_left]
      let sought : File Chip := ⟨{ f.priv with filepos := pos.toNat % 2 ^ 32 },
        f.world.note (.printk ("BIFFKERNEL: Seeking to (" ++ fmtX (target % 2 ^ 64).toNat ++ ")\n"))⟩
      have hw := (bufferRead_nor g t (f := sought) h.ready).1
      have trace := (bufferRead_grows (g.part t).bus g.toFlashmap sought).programmedBytes_eq (by
        rintro e ⟨_, rfl⟩
        rfl)
      rw [dropped]
      refine ⟨⟨bound, Nat.zero_lt_succ _⟩, Nat.zero_le _, ?_, done, ?_, ?_⟩
      · dsimp only
        rw [hw]
        exact h.ready
      · rw [pending_empty rfl, List.append_nil]
      · exact trace.trans programmed

theorem write (h : Landing g acc f) (ubuf : List Byte)
    (straight : f.priv.cursor.Straight g.toFlashmap (.write ubuf)) :
    Landing g (f.priv.cursor.keep g.toFlashmap acc (.write ubuf))
      (biffkernelWrite (g.part t).bus g.toFlashmap ubuf f).2 := by
  have pushed : Landing g (acc ++ numbered f.priv.filepos (ubuf.take (room g.toFlashmap f.priv.cursor)))
      ((ubuf.take (room g.toFlashmap f.priv.cursor)).foldl
        (Bifferboard.push (g.part t).bus g.toFlashmap) f) := by
    have nothing (none : ubuf.take (room g.toFlashmap f.priv.cursor) = []) :
        Landing g (acc ++ numbered f.priv.filepos (ubuf.take (room g.toFlashmap f.priv.cursor)))
          ((ubuf.take (room g.toFlashmap f.priv.cursor)).foldl
            (Bifferboard.push (g.part t).bus g.toFlashmap) f) := by
      rw [none, numbered, List.append_nil]
      exact h
    rcases straight with rfl | past | aligned
    · exact nothing List.take_nil
    · exact nothing (by rw [room, if_pos past, List.take_zero])
    · apply h.foldl_push t _ aligned
      have left := room_aligned g.sized h.inside.filepos_le aligned
      have bound : f.priv.filepos ≤ g.kernelSize := h.inside.filepos_le
      rw [List.length_take, left]
      change f.priv.filepos + min (g.kernelSize - f.priv.filepos) _ ≤ _
      omega
  rw [biffkernelWrite_eq _ _ ubuf f h.inside.fill_lt]
  dsimp only
  split
  · exact pushed
  · exact pushed.note _

/-- The invariant goes through every call that is straight. -/
theorem call (h : Landing g acc f) (op : FileOp) (straight : f.priv.cursor.Straight g.toFlashmap op) :
    Landing g (f.priv.cursor.keep g.toFlashmap acc op) (op.call (g.part t).bus g.toFlashmap f).2 := by
  cases op with
  | read count => exact h.read t count straight
  | write ubuf => exact h.write t ubuf straight
  | seek offset whence => exact h.seek t offset whence

theorem runOps (h : Landing g acc f) (ops : List FileOp)
    (straight : Cursor.Meets g.toFlashmap (Cursor.Straight g.toFlashmap) f.priv.cursor ops) :
    Landing g (keptFrom g.toFlashmap f.priv.cursor acc ops) (runOps (g.part t).bus g.toFlashmap ops f) := by
  induction ops generalizing acc f with
  | nil => exact h
  | cons op ops ih =>
    obtain ⟨first, rest⟩ := straight
    have step := call_cursor (g.part t).bus g.sized op f h.inside.fill_lt
    rw [← step] at rest
    have last := ih (h.call t op first) rest
    rw [step] at last
    exact last

end Landing

section
variable (g : Geometry) (t : Timing)

/-- A session of straight calls that ends with an even number of bytes in the
buffer programs the kept bytes, in order, at their locations. -/
theorem writes_land (mem : Mem) (ops : List FileOp)
    (straight : Cursor.Meets g.toFlashmap (Cursor.Straight g.toFlashmap) ⟨0, 0⟩ ops)
    (even : (Cursor.run g.toFlashmap ⟨0, 0⟩ ops).fill % 2 = 0) :
    programmedBytes (session (g.part t).bus g.toFlashmap ops ⟨idleChip mem, []⟩).trace =
      (kept g.toFlashmap ops).map (located g.toFlashmap) := by
  have landing := (Landing.fresh (g := g) mem).runOps t ops straight
  have run := runOps_cursor (g.part t).bus g.sized ops ⟨.fresh, ⟨idleChip mem, []⟩⟩ (Nat.zero_lt_succ _)
  obtain ⟨done, eq, programmed⟩ := landing.landed
  have fill : (Bifferboard.runOps (g.part t).bus g.toFlashmap ops
      ⟨.fresh, ⟨idleChip mem, []⟩⟩).priv.writeBufferPos % 2 = 0 := by
    change (KernelFpPrivate.cursor _).fill % 2 = 0
    rw [run]
    exact even
  change _ = (keptFrom _ KernelFpPrivate.fresh.cursor [] ops).map _
  unfold session
  generalize Bifferboard.runOps (g.part t).bus g.toFlashmap ops ⟨.fresh, ⟨idleChip mem, []⟩⟩ = f at *
  rw [eq]
  by_cases empty : f.priv.writeBufferPos = 0
  · rw [release_empty _ _ _ empty, programmed, pending_empty empty, List.append_nil]
  · have behind := landing.behind
    rw [release_buffered _ _ _ empty]
    exact bufferWrite_lands g t landing.ready
      (flushChunk_lt g.sized (by omega) landing.inside.filepos_le) fill programmed

theorem writes_land_two :
    Cursor.Meets Geometry.en640.toFlashmap (Cursor.Straight Geometry.en640.toFlashmap) ⟨0, 0⟩
      [.write [0x12#8, 0x34#8]] ∧
    programmedBytes (session (Geometry.en640.part .instant).bus Geometry.en640.toFlashmap
      [.write [0x12#8, 0x34#8]] ⟨idleChip fun _ => 0xff#8, []⟩).trace =
        [(0x6000, 0x12#8), (0x6001, 0x34#8)] := by
  have straight : Cursor.Meets Geometry.en640.toFlashmap (Cursor.Straight Geometry.en640.toFlashmap)
    ⟨0, 0⟩ [.write [0x12#8, 0x34#8]] := ⟨.inr (.inr rfl), trivial⟩
  exact ⟨straight, (writes_land Geometry.en640 .instant (fun _ => 0xff#8) _ straight (by decide)).trans
    (by decide)⟩

/-- A short write into an empty buffer, released: it goes to the start of the
chunk, wherever in the chunk the position was. -/
theorem short_write_lands {f : File Chip} {ubuf : List Byte} (landing : Landing g [] f)
    (inside : f.priv.filepos < g.kernelSize) (empty : f.priv.writeBufferPos = 0)
    (some_ : ubuf ≠ []) (short : ubuf.length < 0x2000) (even : ubuf.length % 2 = 0)
    (chunk : f.priv.filepos % 0x2000 + ubuf.length ≤ 0x2000) :
    programmedBytes (biffkernelRelease (g.part t).bus g.toFlashmap
      ((FileOp.write ubuf).call (g.part t).bus g.toFlashmap f).2).2.trace =
        placed (chunkSect g.toFlashmap (f.priv.filepos / 0x2000)) ubuf.length (ubuf.getD · 0#8) := by
  have size := g.sized.kernelSize_eq
  have upper := g.sized.upper
  have positive : 0 < ubuf.length := List.length_pos_iff.mpr some_
  obtain ⟨done, eq, programmed⟩ := landing.landed
  obtain ⟨rfl, -⟩ := List.append_eq_nil_iff.mp eq.symm
  have fits : ubuf.length ≤ room g.toFlashmap f.priv.cursor := by
    have more : ¬ g.kernelSize ≤ f.priv.cursor.filepos := Nat.not_le_of_lt inside
    rw [room, if_neg more, KernelFpPrivate.cursor, empty]
    dsimp only
    omega
  have written := call_write_partial (g.part t).bus g.toFlashmap ubuf f fits (by omega)
  have copied : f.priv.toCopy ubuf.length = ubuf.length := f.priv.toCopy_fits (by omega)
  have fill : (f.priv.copyIn ubuf).writeBufferPos = ubuf.length := by
    rw [KernelFpPrivate.copyIn_writeBufferPos, copied, empty, Nat.zero_add]
  have number : flushChunk (f.priv.copyIn ubuf).filepos = f.priv.filepos / 0x2000 := by
    rw [KernelFpPrivate.copyIn_filepos, copied, flushChunk]
    split <;> omega
  obtain ⟨-, -, -, trace⟩ := bufferWrite_nor g t (f := ⟨f.priv.copyIn ubuf, f.world⟩) landing.ready
    (by rw [number]; omega)
  dsimp only at trace
  rw [number, fill, programmed, show 2 * (ubuf.length / 2) = ubuf.length by omega] at trace
  have buffered : (f.priv.copyIn ubuf).writeBufferPos ≠ 0 := by omega
  rw [written, release_buffered _ _ ⟨f.priv.copyIn ubuf, f.world⟩ buffered, trace]
  apply placed_congr
  intro i before
  rw [KernelFpPrivate.copyIn_writeBuffer, copied, empty, if_pos (by omega), Nat.sub_zero]

theorem seek_landing (mem : Mem) {pos : Nat} (inside : pos < g.kernelSize) :
    ∃ f, ((FileOp.seek pos 0).call (g.part t).bus g.toFlashmap ⟨.fresh, ⟨idleChip mem, []⟩⟩).2 = f ∧
      Landing g [] f ∧ f.priv.cursor = ⟨pos, 0⟩ := by
  have size := g.sized.kernelSize_eq
  have upper := g.sized.upper
  have target : seekTarget g.toFlashmap 0 (pos : Int) 0 = some (pos : Int) := by
    rw [seekTarget, if_pos rfl, wrap64, Int.bmod_eq_of_le (by omega) (by omega)]
  have nothing : Cursor.keep g.toFlashmap ⟨0, 0⟩ [] (.seek pos 0) = [] := by
    simp only [Cursor.keep, target, List.take_nil, ite_self]
  have cursor : Cursor.after g.toFlashmap ⟨0, 0⟩ (.seek pos 0) = ⟨pos, 0⟩ := by
    rw [Cursor.after_seek (c := ⟨0, 0⟩) target (by omega), Int.toNat_natCast,
      Nat.min_eq_left (Nat.le_of_lt inside)]
  exact ⟨_, rfl, nothing ▸ (Landing.fresh (g := g) mem).call t (.seek pos 0) trivial,
    (call_cursor (g.part t).bus g.sized (.seek pos 0) _ (Nat.zero_lt_succ _)).trans cursor⟩

/-- The same from a fresh handle, after a seek. -/
theorem seek_write_lands (mem : Mem) {pos : Nat} {ubuf : List Byte} (inside : pos < g.kernelSize)
    (some_ : ubuf ≠ []) (short : ubuf.length < 0x2000) (even : ubuf.length % 2 = 0)
    (chunk : pos % 0x2000 + ubuf.length ≤ 0x2000) :
    programmedBytes (session (g.part t).bus g.toFlashmap [.seek pos 0, .write ubuf]
      ⟨idleChip mem, []⟩).trace =
        placed (chunkSect g.toFlashmap (pos / 0x2000)) ubuf.length (ubuf.getD · 0#8) := by
  obtain ⟨f, seeked, landing, moved⟩ := seek_landing g t mem inside
  have filepos : f.priv.filepos = pos := congrArg Cursor.filepos moved
  rw [session, runOps_cons, seeked, runOps_cons, runOps_nil]
  rw [← filepos] at inside chunk ⊢
  exact short_write_lands g t landing inside (congrArg Cursor.fill moved) some_ short even chunk

/-- Two bytes written at position 0x1000: they are accepted there and the write
is not abandoned, but they are programmed 0x1000 bytes lower. -/
theorem seek_write_misplaced :
    (0x1000, 0x12#8) ∈ kept Geometry.en640.toFlashmap [.seek 0x1000 0, .write [0x12#8, 0x34#8]] ∧
    (location Geometry.en640.toFlashmap 0x1000, 0x12#8) ∉ programmedBytes (session
      (Geometry.en640.part .instant).bus Geometry.en640.toFlashmap
      [.seek 0x1000 0, .write [0x12#8, 0x34#8]] ⟨idleChip fun _ => 0xff#8, []⟩).trace := by
  refine ⟨by decide, ?_⟩
  rw [show (0x1000 : Int) = ((0x1000 : Nat) : Int) from rfl, seek_write_lands Geometry.en640 .instant
    (fun _ => 0xff#8) (by decide) (by decide) (by decide) (by decide) (by decide)]
  decide

end

end Bifferboard
