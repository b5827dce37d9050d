import Mathlib.Logic.Function.Basic
import Mathlib.Tactic.Ring
import Neutrino.Drivers.FontBitmap
import Neutrino.Lib.CountingLoop

/-!
# The text console on the framebuffer

`vga_putc` draws characters of 8 by 8 pixels at a cursor, wraps lines at the right edge and scrolls at
the bottom. This file is the code; `Screen.touched` and `Screen.glyphs` record which bytes of the
framebuffer it reads or writes and which rows of the font it looks at.

`vga_lerp` interpolates with a `float`, which is a function of the alpha byte of the colour. It is a
parameter, `lerp old new alpha`.
-/

namespace Neutrino.Drivers

open Neutrino.Lib

/-! ## State -/

/-- `__vesaWidth`, `__vesaHeight` and `__vesaBPP`, the last in bytes. -/
structure Mode where
  width : UInt32
  height : UInt32
  bpp : UInt32

namespace Mode

/-- The number of bytes of the framebuffer. -/
def size (m : Mode) : Nat := m.width.toNat * m.height.toNat * m.bpp.toNat

/-- Text columns and rows. -/
def cols (m : Mode) : Nat := m.width.toNat / 8

def rows (m : Mode) : Nat := m.height.toNat / 9

end Mode

/-- A mode with at least one text row and pixels of three or four bytes, whose framebuffer can be
indexed by an `int`. -/
structure VideoMode extends Mode where
  width_pos : 0 < width.toNat
  height_ge : 9 ≤ height.toNat
  bpp_eq : bpp = 3 ∨ bpp = 4
  size_lt : toMode.size < 2 ^ 31

/-- What `vga_putpixel` and its callers work on. -/
structure Screen where
  bytes : Nat → UInt8
  fg : UInt32
  bg : UInt32
  touched : List Nat
  glyphs : List UInt8

structure Console where
  csrX : UInt32
  csrY : UInt32
  screen : Screen

/-! ## Bytes -/

namespace Screen

/-- Read the byte at `off`, and write what `f` makes of it. -/
def update (off : UInt32) (f : UInt8 → UInt8) (s : Screen) : Screen :=
  { s with
    bytes := Function.update s.bytes off.toNat (f (s.bytes off.toNat))
    touched := off.toNat :: s.touched }

/-- `__vesaFramebuffer[dst] = __vesaFramebuffer[src]` -/
def copy (dst src : UInt32) (s : Screen) : Screen :=
  { s with
    bytes := Function.update s.bytes dst.toNat (s.bytes src.toNat)
    touched := dst.toNat :: src.toNat :: s.touched }

/-- `__vesaFramebuffer[dst] = 0` -/
def zero (dst : UInt32) (s : Screen) : Screen :=
  { s with bytes := Function.update s.bytes dst.toNat 0, touched := dst.toNat :: s.touched }

end Screen

/-! ## Pixels and characters -/

/-- Where the pixel in column `x` and row `y` is. -/
def Mode.offset (m : Mode) (x y : UInt32) : UInt32 := (x + y * m.width) * m.bpp

section Drawing

variable (lerp : UInt8 → UInt8 → UInt32 → UInt8) (m : Mode)

def vgaPutpixel (x y color : UInt32) (s : Screen) : Screen :=
  ((s.update (m.offset x y)
      fun old => lerp old (color &&& 255).toUInt8 ((color >>> 24) &&& 255)).update
      (m.offset x y + 1)
      fun old => lerp old ((color >>> 8) &&& 255).toUInt8 ((color >>> 24) &&& 255)).update
      (m.offset x y + 2)
      fun old => lerp old ((color >>> 16) &&& 255).toUInt8 ((color >>> 24) &&& 255)

/-- The inner loop of `vga_drawchar`. Its `j` is `x` plus the column. -/
def drawRow (bmask x k : UInt32) (s : Screen) : Screen :=
  (List.range 8).foldl
    (fun s i => vgaPutpixel lerp m (x + UInt32.ofNat i) k (if fontBit bmask i then s.fg else s.bg) s) s

/-- The outer loop has `k`, which is `y` plus the row. -/
def vgaDrawchar (c : UInt8) (x y : UInt32) (s : Screen) : Screen :=
  -- 128 gets through, although the font ends at 127
  if c > 128 then s
  else
    (List.range 8).foldl
      (fun s i =>
        drawRow lerp m (fontRow c i) x (y + UInt32.ofNat i) { s with glyphs := c :: s.glyphs }) s

end Drawing

/-! ## Scrolling -/

namespace VideoMode

/-- `offset`, `length` and `end` of `vga_scroll`. -/
def scrollOffset (m : VideoMode) : UInt32 := m.width * m.bpp * 9

def scrollLength (m : VideoMode) : UInt32 := m.width * m.height * m.bpp - m.scrollOffset

def scrollEnd (m : VideoMode) : UInt32 := m.width * m.height * m.bpp

variable (m : VideoMode)

theorem bpp_toNat : m.bpp.toNat = 3 ∨ m.bpp.toNat = 4 := by
  rcases m.bpp_eq with h | h
  · exact .inl (by rw [h]; rfl)
  · exact .inr (by rw [h]; rfl)

theorem bpp_pos : 0 < m.bpp.toNat := by
  rcases m.bpp_toNat with h | h <;> omega

/-- Nine pixel rows fit. -/
theorem line_le_size : m.width.toNat * m.bpp.toNat * 9 ≤ m.size := by
  unfold Mode.size
  calc m.width.toNat * m.bpp.toNat * 9
      ≤ m.width.toNat * m.bpp.toNat * m.height.toNat := Nat.mul_le_mul_left _ m.height_ge
    _ = m.width.toNat * m.height.toNat * m.bpp.toNat := Nat.mul_right_comm _ _ _

theorem scrollOffset_toNat : m.scrollOffset.toNat = m.width.toNat * m.bpp.toNat * 9 := by
  have hline := m.line_le_size
  have hsize := m.size_lt
  have hwb : m.width.toNat * m.bpp.toNat < 2 ^ 32 := by omega
  unfold scrollOffset
  rw [UInt32.toNat_mul, UInt32.toNat_mul, Nat.mod_eq_of_lt hwb]
  apply Nat.mod_eq_of_lt
  show m.width.toNat * m.bpp.toNat * 9 < 2 ^ 32
  omega

theorem scrollEnd_toNat : m.scrollEnd.toNat = m.size := by
  have hsize := m.size_lt
  have hwh : m.width.toNat * m.height.toNat ≤ m.size := Nat.le_mul_of_pos_right _ m.bpp_pos
  unfold scrollEnd
  rw [UInt32.toNat_mul, UInt32.toNat_mul, Nat.mod_eq_of_lt (a := m.width.toNat * _) (by omega)]
  exact Nat.mod_eq_of_lt (Nat.lt_trans hsize (by decide))

theorem scrollLength_toNat : m.scrollLength.toNat = m.size - m.width.toNat * m.bpp.toNat * 9 := by
  have hle : m.scrollOffset ≤ m.scrollEnd := by
    rw [UInt32.le_iff_toNat_le, scrollOffset_toNat, scrollEnd_toNat]
    exact m.line_le_size
  show (m.scrollEnd - m.scrollOffset).toNat = _
  rw [UInt32.toNat_sub_of_le _ _ hle, scrollOffset_toNat, scrollEnd_toNat]

theorem scrollLength_fits : m.scrollLength.toNat + m.bpp.toNat ≤ 2 ^ 32 := by
  have hsize := m.size_lt
  have hbpp := m.bpp_toNat
  rw [scrollLength_toNat]
  omega

theorem scrollEnd_fits : m.scrollEnd.toNat + (3 : UInt32).toNat ≤ 2 ^ 32 := by
  have hsize := m.size_lt
  have h3 : (3 : UInt32).toNat = 3 := rfl
  rw [scrollEnd_toNat]
  omega

end VideoMode

section Console

variable (m : VideoMode)

/-- One round of the first loop of `vga_scroll`. -/
def scrollPixel (i : UInt32) (s : Screen) : Screen :=
  ((s.copy i (i + m.scrollOffset)).copy (i + 1) (i + m.scrollOffset + 1)).copy (i + 2)
    (i + m.scrollOffset + 2)

/-- One round of the second loop. -/
def clearBytes (i : UInt32) (s : Screen) : Screen := ((s.zero i).zero (i + 1)).zero (i + 2)

/-- The two loops. -/
def scrollScreen (s : Screen) : Screen :=
  -- the second counter goes on by 3 whatever the pixel size
  strideLoop m.scrollEnd 3 (by decide) m.scrollEnd_fits clearBytes m.scrollLength
    (strideLoop m.scrollLength m.bpp m.bpp_pos m.scrollLength_fits (scrollPixel m) 0 s)

def vgaScroll (con : Console) : Console :=
  if con.csrY < m.height / 9 then con
  else { con with csrY := con.csrY - 1, screen := scrollScreen m con.screen }

/-! ## Characters to the console -/

/-- The check of the right margin. -/
def wrapLine (con : Console) : Console :=
  if con.csrX ≥ m.width / 8 then { con with csrX := 0, csrY := con.csrY + 1 } else con

variable (lerp : UInt8 → UInt8 → UInt32 → UInt8)

/-- The characters are signed. -/
def vgaPutc (c : Int8) (con : Console) : Console :=
  vgaScroll m <| wrapLine m <|
    if c = 0x08 then
      let con := if con.csrX ≠ 0 then { con with csrX := con.csrX - 1 } else con
      -- draws at the cursor, and may already have gone on to the next line
      let con := vgaPutc 0x20 con
      { con with csrX := con.csrX - 1 }
    else if c = 0x09 then
      { con with csrX := (con.csrX + 8) &&& ~~~7 }
    else if c = 0x0D then
      { con with csrX := 0 }
    else if c = 0x0A then
      { con with csrX := 0, csrY := con.csrY + 1 }
    else if c ≥ 0x20 then
      { con with
        csrX := con.csrX + 1
        screen := vgaDrawchar lerp m.toMode c.toUInt8 (con.csrX * 8) (con.csrY * 9 + 1) con.screen }
    else
      -- the other control characters, and those from 0x80 on, which are negative
      con
termination_by if c = 0x08 then 1 else 0
decreasing_by simp_all

/-- The console after a sequence of characters. -/
def vgaPuts (cs : List Int8) (con : Console) : Console := cs.foldl (fun con c => vgaPutc m lerp c con) con

end Console

/-! ## Offsets -/

/-- The offset of byte `b` of the pixel in column `x` and row `y`. -/
def Mode.byteAt (m : Mode) (x y b : Nat) : Nat := (x + y * m.width.toNat) * m.bpp.toNat + b

section Offsets

variable {m : VideoMode} {x y x' y' b b' : Nat}

theorem VideoMode.three_le_bpp (m : VideoMode) : 3 ≤ m.bpp.toNat := by
  rcases m.bpp_toNat with h | h <;> omega

/-- Pixels are numbered row by row. -/
theorem pixel_lt_iff {h : Nat} (hx : x < m.width.toNat) :
    x + y * m.width.toNat < m.width.toNat * h ↔ y < h := by
  have hrow : (x + y * m.width.toNat) / m.width.toNat = y := by
    rw [Nat.add_mul_div_right _ _ (Nat.zero_lt_of_lt hx), Nat.div_eq_of_lt hx, Nat.zero_add]
  rw [Nat.mul_comm m.width.toNat h, ← Nat.div_lt_iff_lt_mul (Nat.zero_lt_of_lt hx), hrow]

theorem byteAt_lt (hx : x < m.width.toNat) (hy : y < m.height.toNat) (hb : b < 3) :
    m.byteAt x y b < m.size := by
  have hbpp := m.three_le_bpp
  have hpixel := (pixel_lt_iff hx).mpr hy
  unfold Mode.byteAt Mode.size
  calc (x + y * m.width.toNat) * m.bpp.toNat + b
      < (x + y * m.width.toNat) * m.bpp.toNat + m.bpp.toNat := by omega
    _ = (x + y * m.width.toNat + 1) * m.bpp.toNat := by ring
    _ ≤ m.width.toNat * m.height.toNat * m.bpp.toNat := Nat.mul_le_mul_right _ hpixel

/-- No two pixels share a byte. -/
theorem byteAt_inj (hx : x < m.width.toNat) (hx' : x' < m.width.toNat) (hb : b < 3) (hb' : b' < 3)
    (h : m.byteAt x y b = m.byteAt x' y' b') : x = x' ∧ y = y' ∧ b = b' := by
  have hbpp := m.three_le_bpp
  have hbyte : ∀ p c : Nat, c < 3 →
      (p * m.bpp.toNat + c) / m.bpp.toNat = p ∧ (p * m.bpp.toNat + c) % m.bpp.toNat = c := by
    intro p c hc
    rw [Nat.mul_comm, Nat.mul_add_div m.bpp_pos, Nat.mul_add_mod]
    exact ⟨by rw [Nat.div_eq_of_lt (by omega), Nat.add_zero], Nat.mod_eq_of_lt (by omega)⟩
  have hline : ∀ z w : Nat, z < m.width.toNat →
      (z + w * m.width.toNat) / m.width.toNat = w ∧ (z + w * m.width.toNat) % m.width.toNat = z := by
    intro z w hz
    rw [Nat.add_mul_div_right _ _ m.width_pos, Nat.add_mul_mod_self_right]
    exact ⟨by rw [Nat.div_eq_of_lt hz, Nat.zero_add], Nat.mod_eq_of_lt hz⟩
  -- the quotient by the pixel size is the pixel, and that by the width its row
  unfold Mode.byteAt at h
  have hpixel : x + y * m.width.toNat = x' + y' * m.width.toNat := by
    rw [← (hbyte (x + y * m.width.toNat) b hb).1, h, (hbyte _ b' hb').1]
  refine ⟨?_, ?_, ?_⟩
  · rw [← (hline x y hx).2, hpixel, (hline x' y' hx').2]
  · rw [← (hline x y hx).1, hpixel, (hline x' y' hx').1]
  · rw [← (hbyte (x + y * m.width.toNat) b hb).2, h, (hbyte _ b' hb').2]

/-- The offsets `vga_putpixel` computes. -/
theorem offset_toNat {x y b : UInt32} (hx : x.toNat < m.width.toNat) (hy : y.toNat < m.height.toNat)
    (hb : b.toNat < 3) : (m.offset x y + b).toNat = m.byteAt x.toNat y.toNat b.toNat := by
  have hsize := m.size_lt
  have hlt := byteAt_lt (m := m) hx hy hb
  have hbpp := m.bpp_pos
  unfold Mode.byteAt at hlt ⊢
  unfold Mode.offset
  have hpixel : x.toNat + y.toNat * m.width.toNat ≤
      (x.toNat + y.toNat * m.width.toNat) * m.bpp.toNat := Nat.le_mul_of_pos_right _ hbpp
  have hrow : (y * m.width).toNat = y.toNat * m.width.toNat := by
    rw [UInt32.toNat_mul]
    apply Nat.mod_eq_of_lt
    omega
  have hsum : (x + y * m.width).toNat = x.toNat + y.toNat * m.width.toNat := by
    rw [UInt32.toNat_add, hrow]
    apply Nat.mod_eq_of_lt
    omega
  have hprod : ((x + y * m.width) * m.bpp).toNat =
      (x.toNat + y.toNat * m.width.toNat) * m.bpp.toNat := by
    rw [UInt32.toNat_mul, hsum]
    apply Nat.mod_eq_of_lt
    omega
  rw [UInt32.toNat_add, hprod]
  apply Nat.mod_eq_of_lt
  omega

/-- The pixels of a text cell. -/
theorem cell_column {x : UInt32} {i : Nat} (hx : x.toNat < m.cols) (hi : i < 8) :
    (x * 8 + UInt32.ofNat i).toNat = x.toNat * 8 + i ∧ x.toNat * 8 + i < m.width.toNat := by
  have hwidth := m.width.toNat_lt
  unfold Mode.cols at hx
  have hofNat : (UInt32.ofNat i).toNat = i := UInt32.toNat_ofNat_of_lt' (Nat.lt_trans hi (by decide))
  have height : (x * 8).toNat = x.toNat * 8 := by
    rw [UInt32.toNat_mul]
    apply Nat.mod_eq_of_lt
    show x.toNat * 8 < 2 ^ 32
    omega
  rw [UInt32.toNat_add, height, hofNat]
  exact ⟨Nat.mod_eq_of_lt (by omega), by omega⟩

theorem cell_row {y : UInt32} {i : Nat} (hy : y.toNat < m.rows) (hi : i < 8) :
    (y * 9 + 1 + UInt32.ofNat i).toNat = y.toNat * 9 + 1 + i ∧
      y.toNat * 9 + 1 + i < m.height.toNat := by
  have hheight := m.height.toNat_lt
  unfold Mode.rows at hy
  have hofNat : (UInt32.ofNat i).toNat = i := UInt32.toNat_ofNat_of_lt' (Nat.lt_trans hi (by decide))
  have hnine : (y * 9).toNat = y.toNat * 9 := by
    rw [UInt32.toNat_mul]
    apply Nat.mod_eq_of_lt
    show y.toNat * 9 < 2 ^ 32
    omega
  rw [UInt32.toNat_add, UInt32.toNat_add, hnine, hofNat, UInt32.toNat_one,
    Nat.mod_eq_of_lt (a := y.toNat * 9 + 1) (by omega)]
  exact ⟨Nat.mod_eq_of_lt (by omega), by omega⟩

end Offsets

/-! ## The rounds of the scroll loops -/

section Rounds

variable (m : VideoMode)

/-- The first loop copies all pixels but those of the last nine rows. -/
theorem scrollLength_rounds :
    m.width.toNat * (m.height.toNat - 9) * m.bpp.toNat = m.scrollLength.toNat := by
  rw [m.scrollLength_toNat]
  unfold Mode.size
  rw [Nat.mul_sub, Nat.sub_mul, Nat.mul_right_comm _ 9]

/-- The second loop clears three bytes at a time. -/
theorem scrollEnd_rounds :
    m.scrollLength.toNat + m.width.toNat * m.bpp.toNat * 3 * 3 = m.scrollEnd.toNat := by
  have hline := m.line_le_size
  rw [m.scrollLength_toNat, m.scrollEnd_toNat]
  omega

variable {m} {k : Nat} {i b : UInt32}

/-- The bytes a round of the first loop writes, and those it reads. -/
theorem scrollPixel_offsets (hk : k < m.width.toNat * (m.height.toNat - 9))
    (hi : i.toNat = k * m.bpp.toNat) (hb : b.toNat < 3) :
    (i + b).toNat = k * m.bpp.toNat + b.toNat ∧
      (i + m.scrollOffset + b).toNat = (k + 9 * m.width.toNat) * m.bpp.toNat + b.toNat ∧
      (k + 9 * m.width.toNat) * m.bpp.toNat + b.toNat < m.size := by
  have hsize := m.size_lt
  have hbpp := m.three_le_bpp
  have hline := m.line_le_size
  have hround : (k + 1) * m.bpp.toNat ≤ m.size - m.width.toNat * m.bpp.toNat * 9 := by
    rw [← m.scrollLength_toNat, ← scrollLength_rounds]
    exact Nat.mul_le_mul_right _ hk
  rw [Nat.succ_mul] at hround
  have hsrc : (k + 9 * m.width.toNat) * m.bpp.toNat =
      k * m.bpp.toNat + m.width.toNat * m.bpp.toNat * 9 := by ring
  rw [hsrc, UInt32.toNat_add, UInt32.toNat_add, UInt32.toNat_add, hi, m.scrollOffset_toNat]
  refine ⟨Nat.mod_eq_of_lt (by omega), ?_, by omega⟩
  rw [Nat.mod_eq_of_lt (a := k * m.bpp.toNat + m.width.toNat * m.bpp.toNat * 9) (by omega)]
  exact Nat.mod_eq_of_lt (by omega)

/-- The bytes a round of the second loop clears. -/
theorem clearBytes_offsets (hk : k < m.width.toNat * m.bpp.toNat * 3)
    (hi : i.toNat = m.scrollLength.toNat + k * 3) (hb : b.toNat < 3) :
    (i + b).toNat = m.scrollLength.toNat + k * 3 + b.toNat ∧
      m.scrollLength.toNat + k * 3 + b.toNat < m.size := by
  have hsize := m.size_lt
  have hend := scrollEnd_rounds m
  rw [m.scrollEnd_toNat] at hend
  rw [UInt32.toNat_add, hi]
  exact ⟨Nat.mod_eq_of_lt (by omega), by omega⟩

end Rounds

end Neutrino.Drivers
