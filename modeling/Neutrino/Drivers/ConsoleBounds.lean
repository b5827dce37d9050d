import Neutrino.Drivers.TextConsole

/-!
# The console stays on the screen

Starting at the top left corner, no sequence of characters takes the cursor out of the text grid, the
framebuffer accesses out of the framebuffer, or the font accesses out of the font
(`vgaPuts_inBounds`).
-/

namespace Neutrino.Drivers

open Neutrino.Lib

/-- The cursor at the top left corner; nothing has been accessed yet. -/
def Console.start (bytes : Nat → UInt8) (fg bg : UInt32) : Console := ⟨0, 0, bytes, fg, bg, [], []⟩

structure InBounds (m : VideoMode) (con : Console) : Prop where
  csrX : con.csrX < m.width / 8
  csrY : con.csrY < m.height / 9
  glyphs : ∀ c ∈ con.screen.glyphs, c < 128
  touched : ∀ off ∈ con.screen.touched, off < m.size

/-- The part of `InBounds` about the screen. -/
structure Accesses (m : VideoMode) (s : Screen) : Prop where
  glyphs : ∀ c ∈ s.glyphs, c < 128
  touched : ∀ off ∈ s.touched, off < m.size

section Accesses

variable {m : VideoMode} {lerp : UInt8 → UInt8 → UInt32 → UInt8} {s : Screen}

/-! ## Single accesses -/

theorem Accesses.update (h : Accesses m s) {off : UInt32} (f : UInt8 → UInt8)
    (hoff : off.toNat < m.size) : Accesses m (s.update off f) :=
  ⟨h.glyphs, List.forall_mem_cons.mpr ⟨hoff, h.touched⟩⟩

theorem Accesses.copy (h : Accesses m s) {dst src : UInt32} (hdst : dst.toNat < m.size)
    (hsrc : src.toNat < m.size) : Accesses m (s.copy dst src) :=
  ⟨h.glyphs, List.forall_mem_cons.mpr ⟨hdst, List.forall_mem_cons.mpr ⟨hsrc, h.touched⟩⟩⟩

theorem Accesses.zero (h : Accesses m s) {dst : UInt32} (hdst : dst.toNat < m.size) :
    Accesses m (s.zero dst) :=
  ⟨h.glyphs, List.forall_mem_cons.mpr ⟨hdst, h.touched⟩⟩

theorem Accesses.glyph (h : Accesses m s) {c : UInt8} (hc : c < 128) :
    Accesses m { s with glyphs := c :: s.glyphs } :=
  ⟨List.forall_mem_cons.mpr ⟨hc, h.glyphs⟩, h.touched⟩

/-! ## Drawing -/

theorem vgaPutpixel_accesses (h : Accesses m s) {x y : UInt32} (hx : x.toNat < m.width.toNat)
    (hy : y.toNat < m.height.toNat) (color : UInt32) :
    Accesses m (vgaPutpixel lerp m.toMode x y color s) := by
  have hoff : ∀ b : UInt32, b.toNat < 3 → (m.offset x y + b).toNat < m.size := by
    intro b hb
    rw [offset_toNat hx hy hb]
    exact byteAt_lt hx hy hb
  unfold vgaPutpixel
  apply Accesses.update
  apply Accesses.update
  apply Accesses.update h
  · simpa using hoff 0 (by decide)
  · exact hoff 1 (by decide)
  · exact hoff 2 (by decide)

theorem drawRow_accesses (h : Accesses m s) {bmask x k : UInt32} (hx : x.toNat < m.cols)
    (hk : k.toNat < m.height.toNat) : Accesses m (drawRow lerp m.toMode bmask (x * 8) k s) := by
  unfold drawRow
  apply foldl_range_rule (I := fun _ => Accesses m) 8 h
  intro i s hi h
  have hcol := cell_column hx hi
  apply vgaPutpixel_accesses h _ hk
  rw [hcol.1]
  exact hcol.2

theorem vgaDrawchar_accesses (h : Accesses m s) {c : UInt8} {x y : UInt32} (hc : c < 128)
    (hx : x.toNat < m.cols) (hy : y.toNat < m.rows) :
    Accesses m (vgaDrawchar lerp m.toMode c (x * 8) (y * 9 + 1) s) := by
  have hfont : ¬ c > 128 := fun hgt => absurd (UInt8.lt_trans hc hgt) (UInt8.lt_irrefl c)
  unfold vgaDrawchar
  rw [if_neg hfont]
  apply foldl_range_rule (I := fun _ => Accesses m) 8 h
  intro i s hi h
  have hrow := cell_row hy hi
  apply drawRow_accesses (h.glyph hc) hx
  rw [hrow.1]
  exact hrow.2

/-! ## Scrolling -/

theorem scrollPixel_accesses (h : Accesses m s) {k : Nat} {i : UInt32}
    (hk : k < m.width.toNat * (m.height.toNat - 9)) (hi : i.toNat = k * m.bpp.toNat) :
    Accesses m (scrollPixel m i s) := by
  have hdst : ∀ b : UInt32, b.toNat < 3 → (i + b).toNat < m.size := by
    intro b hb
    have hoff := scrollPixel_offsets hk hi hb
    have hle : k * m.bpp.toNat ≤ (k + 9 * m.width.toNat) * m.bpp.toNat :=
      Nat.mul_le_mul_right _ (Nat.le_add_right _ _)
    omega
  have hsrc : ∀ b : UInt32, b.toNat < 3 → (i + m.scrollOffset + b).toNat < m.size := by
    intro b hb
    have hoff := scrollPixel_offsets hk hi hb
    omega
  unfold scrollPixel
  apply Accesses.copy
  apply Accesses.copy
  apply Accesses.copy h
  · simpa using hdst 0 (by decide)
  · simpa using hsrc 0 (by decide)
  · exact hdst 1 (by decide)
  · exact hsrc 1 (by decide)
  · exact hdst 2 (by decide)
  · exact hsrc 2 (by decide)

theorem clearBytes_accesses (h : Accesses m s) {k : Nat} {i : UInt32}
    (hk : k < m.width.toNat * m.bpp.toNat * 3) (hi : i.toNat = m.scrollLength.toNat + k * 3) :
    Accesses m (clearBytes i s) := by
  have hdst : ∀ b : UInt32, b.toNat < 3 → (i + b).toNat < m.size := by
    intro b hb
    have hoff := clearBytes_offsets hk hi hb
    omega
  unfold clearBytes
  apply Accesses.zero
  apply Accesses.zero
  apply Accesses.zero h
  · simpa using hdst 0 (by decide)
  · exact hdst 1 (by decide)
  · exact hdst 2 (by decide)

theorem scrollScreen_accesses (h : Accesses m s) : Accesses m (scrollScreen m s) := by
  unfold scrollScreen
  apply strideLoop_rule (I := fun _ => Accesses m) (n := m.width.toNat * m.bpp.toNat * 3)
  · exact scrollEnd_rounds m
  · apply strideLoop_rule (I := fun _ => Accesses m) (n := m.width.toNat * (m.height.toNat - 9)) _ _ _ h
    · intro k i s hk hi h
      apply scrollPixel_accesses h hk
      simpa using hi
    · rw [← scrollLength_rounds]
      simp
  · intro k i s hk hi h
    exact clearBytes_accesses h hk hi

/-! ## The console -/

theorem accesses_simulates (m : VideoMode) (lerp : UInt8 → UInt8 → UInt32 → UInt8) :
    Simulates m lerp fun s _ => Accesses m s where
  draw hc hx hy h := vgaDrawchar_accesses h (toUInt8_lt_of_printable hc) hx hy
  scroll _ h := scrollScreen_accesses h

end Accesses

/-- **The console stays on the screen**, after any sequence of characters. -/
theorem vgaPuts_inBounds (m : VideoMode) (hwidth : 8 ≤ m.width.toNat)
    (lerp : UInt8 → UInt8 → UInt32 → UInt8) (bytes : Nat → UInt8) (fg bg : UInt32)
    (cs : List Int8) : InBounds m (vgaPuts m lerp cs (Console.start bytes fg bg)) := by
  have hcols : 0 < m.cols := Nat.div_pos hwidth (by decide)
  have hstart : Refines (fun s _ => Accesses m s) (Console.start bytes fg bg) TextGrid.clear :=
    ⟨rfl, rfl, List.forall_mem_nil _, List.forall_mem_nil _⟩
  obtain ⟨hfits, hrefines⟩ := vgaPuts_refines (accesses_simulates m lerp) cs
    (TextGrid.fits_clear hcols m.rows_pos) hstart
  refine ⟨?_, ?_, hrefines.screen.glyphs, hrefines.screen.touched⟩
  · rw [UInt32.lt_iff_toNat_lt, hrefines.col, UInt32.toNat_div]
    exact hfits.col
  · rw [UInt32.lt_iff_toNat_lt, hrefines.row, UInt32.toNat_div]
    exact hfits.row

/-- A screen with room for two characters. -/
def twoCells : VideoMode := ⟨⟨16, 9, 3⟩, by decide, by decide, by decide, by decide⟩

theorem vgaPuts_inBounds_twoCells :
    InBounds twoCells (vgaPuts twoCells (fun _ new _ => new) [0x41, 0x08, 0x09, 0x41, 0x0A, -1]
      (Console.start (fun _ => 0) 0xFFFFFFFF 0)) :=
  vgaPuts_inBounds twoCells (by decide) _ _ _ _ _

end Neutrino.Drivers
