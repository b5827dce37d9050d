import Neutrino.Drivers.Vga

/-!
# The pixels the framebuffer code writes

`vga_putpixel` and `vga_scroll`, byte by byte: the first blends the three colour bytes of its pixel and
nothing else (`update_byteAt` is its step), the second moves the pixels up by nine rows and blackens the
last nine (`scrollScreen_bytes`).
-/

namespace Neutrino.Drivers

open Neutrino.Lib

variable {m : VideoMode}

/-! ## Drawing -/

/-- A write to one colour byte of a pixel. -/
theorem update_byteAt (s : Screen) (f : UInt8 → UInt8) {x y c : UInt32} {x' y' b : Nat}
    (hx : x.toNat < m.width.toNat) (hy : y.toNat < m.height.toNat) (hc : c.toNat < 3)
    (hx' : x' < m.width.toNat) (hb : b < 3) :
    (s.update (m.offset x y + c) f).bytes (m.byteAt x' y' b) =
      if x' = x.toNat ∧ y' = y.toNat ∧ b = c.toNat then f (s.bytes (m.byteAt x' y' b))
      else s.bytes (m.byteAt x' y' b) := by
  unfold Screen.update
  rw [offset_toNat hx hy hc]
  by_cases heq : x' = x.toNat ∧ y' = y.toNat ∧ b = c.toNat
  · obtain ⟨rfl, rfl, rfl⟩ := heq
    rw [if_pos ⟨rfl, rfl, rfl⟩]
    exact Function.update_self _ _ _
  · rw [if_neg heq]
    apply Function.update_of_ne
    exact fun h => heq (byteAt_inj hx' hx hb hc h)

/-- The colour bytes in the order of the framebuffer: blue, green, red. -/
def channel (color : UInt32) : Nat → UInt8
  | 0 => (color &&& 255).toUInt8
  | 1 => ((color >>> 8) &&& 255).toUInt8
  | _ => ((color >>> 16) &&& 255).toUInt8

/-- **A drawn pixel.** Its three bytes are blended, and nothing else changes. -/
theorem vgaPutpixel_byteAt (lerp : UInt8 → UInt8 → UInt32 → UInt8) (s : Screen) (color : UInt32)
    {x y : UInt32} {x' y' b : Nat} (hx : x.toNat < m.width.toNat) (hy : y.toNat < m.height.toNat)
    (hx' : x' < m.width.toNat) (hb : b < 3) :
    (vgaPutpixel lerp m.toMode x y color s).bytes (m.byteAt x' y' b) =
      if x' = x.toNat ∧ y' = y.toNat then
        lerp (s.bytes (m.byteAt x' y' b)) (channel color b) ((color >>> 24) &&& 255)
      else s.bytes (m.byteAt x' y' b) := by
  unfold vgaPutpixel
  nth_rewrite 3 [← UInt32.add_zero (m.offset x y)]
  rw [update_byteAt _ _ hx hy (by decide) hx' hb, update_byteAt _ _ hx hy (by decide) hx' hb,
    update_byteAt _ _ hx hy (by decide) hx' hb]
  obtain rfl | rfl | rfl : b = 0 ∨ b = 1 ∨ b = 2 := by omega
  all_goals simp [channel]

/-! ## Scrolling -/

/-- One round of the first loop. What it reads lies behind what it writes. -/
theorem scrollPixel_bytes (s : Screen) {k : Nat} {i : UInt32}
    (hk : k < m.width.toNat * (m.height.toNat - 9)) (hi : i.toNat = k * m.bpp.toNat) (a : Nat) :
    (scrollPixel m i s).bytes a =
      if k * m.bpp.toNat ≤ a ∧ a < k * m.bpp.toNat + 3 then
        s.bytes (a + 9 * m.width.toNat * m.bpp.toNat)
      else s.bytes a := by
  have h1 := scrollPixel_offsets (b := 1) hk hi (by decide)
  have h2 := scrollPixel_offsets (b := 2) hk hi (by decide)
  have h0 := scrollPixel_offsets (b := 0) hk hi (by decide)
  rw [UInt32.add_zero, UInt32.add_zero] at h0
  have hline : 3 ≤ 9 * m.width.toNat * m.bpp.toNat := by
    calc 3 ≤ m.bpp.toNat := m.three_le_bpp
      _ ≤ 9 * m.width.toNat * m.bpp.toNat :=
        Nat.le_mul_of_pos_left _ (Nat.mul_pos (by decide) m.width_pos)
  rw [Nat.add_mul] at h0 h1 h2
  unfold scrollPixel Screen.copy
  simp only [Function.update_apply, h0.1, h1.1, h2.1, h0.2.1, h1.2.1, h2.2.1]
  simp only [UInt32.toNat_zero, UInt32.toNat_one, UInt32.reduceToNat, Nat.add_zero]
  generalize k * m.bpp.toNat = dst at *
  generalize 9 * m.width.toNat * m.bpp.toNat = line at *
  -- none of the bytes written is read again
  have hapart : dst + line + 2 ≠ dst + 1 ∧ dst + line + 2 ≠ dst ∧ dst + line + 1 ≠ dst := by omega
  simp only [hapart, if_false]
  by_cases hin : dst ≤ a ∧ a < dst + 3
  · rw [if_pos hin]
    obtain rfl | rfl | rfl : a = dst ∨ a = dst + 1 ∨ a = dst + 2 := by omega
    · simp
    · simp [Nat.add_right_comm]
    · simp [Nat.add_right_comm]
  · rw [if_neg hin, if_neg (by omega), if_neg (by omega), if_neg (by omega)]

/-- After `k` pixels: those are copied, and nothing from the next one on has changed. -/
structure Copied (m : VideoMode) (s : Screen) (k : Nat) (s' : Screen) : Prop where
  fg : s'.fg = s.fg
  bg : s'.bg = s.bg
  done : ∀ p b, p < k → b < 3 →
    s'.bytes (p * m.bpp.toNat + b) = s.bytes ((p + 9 * m.width.toNat) * m.bpp.toNat + b)
  rest : ∀ a, k * m.bpp.toNat ≤ a → s'.bytes a = s.bytes a

theorem Copied.round {s s' : Screen} {k : Nat} {i : UInt32} (h : Copied m s k s')
    (hk : k < m.width.toNat * (m.height.toNat - 9)) (hi : i.toNat = k * m.bpp.toNat) :
    Copied m s (k + 1) (scrollPixel m i s') := by
  have hbpp := m.three_le_bpp
  refine ⟨h.fg, h.bg, ?_, ?_⟩
  · intro p b hp hb
    rw [scrollPixel_bytes s' hk hi, Nat.add_mul]
    -- an earlier pixel is left alone; this one is read from where nothing was written yet
    rcases Nat.lt_succ_iff_lt_or_eq.mp hp with hlt | rfl
    · have hbefore : (p + 1) * m.bpp.toNat ≤ k * m.bpp.toNat := Nat.mul_le_mul_right _ hlt
      rw [Nat.succ_mul] at hbefore
      rw [if_neg (by omega), h.done p b hlt hb, Nat.add_mul]
    · rw [if_pos (by omega), h.rest _ (by omega)]
      congr 1
      omega
  · intro a ha
    rw [Nat.succ_mul] at ha
    rw [scrollPixel_bytes s' hk hi, if_neg (by omega), h.rest a (by omega)]

/-- One round of the second loop. -/
theorem clearBytes_bytes (s : Screen) {k : Nat} {i : UInt32}
    (hk : k < m.width.toNat * m.bpp.toNat * 3) (hi : i.toNat = m.scrollLength.toNat + k * 3)
    (a : Nat) : (clearBytes i s).bytes a =
      if m.scrollLength.toNat + k * 3 ≤ a ∧ a < m.scrollLength.toNat + (k + 1) * 3 then 0
      else s.bytes a := by
  have h1 := clearBytes_offsets (b := 1) hk hi (by decide)
  have h2 := clearBytes_offsets (b := 2) hk hi (by decide)
  unfold clearBytes Screen.zero
  simp only [Function.update_apply, hi, h1.1, h2.1, UInt32.toNat_one, UInt32.reduceToNat]
  split_ifs <;> first | rfl | omega

/-- After `k` rounds of three bytes. -/
structure Cleared (m : VideoMode) (s : Screen) (k : Nat) (s' : Screen) : Prop where
  fg : s'.fg = s.fg
  bg : s'.bg = s.bg
  done : ∀ a, m.scrollLength.toNat ≤ a → a < m.scrollLength.toNat + k * 3 → s'.bytes a = 0
  before : ∀ a, a < m.scrollLength.toNat → s'.bytes a = s.bytes a

theorem Cleared.round {s s' : Screen} {k : Nat} {i : UInt32} (h : Cleared m s k s')
    (hk : k < m.width.toNat * m.bpp.toNat * 3) (hi : i.toNat = m.scrollLength.toNat + k * 3) :
    Cleared m s (k + 1) (clearBytes i s') := by
  refine ⟨h.fg, h.bg, ?_, ?_⟩
  · intro a hlo hhi
    rw [clearBytes_bytes s' hk hi]
    by_cases hnew : m.scrollLength.toNat + k * 3 ≤ a
    · rw [if_pos ⟨hnew, hhi⟩]
    · rw [if_neg (fun h => hnew h.1)]
      exact h.done a hlo (Nat.not_le.mp hnew)
  · intro a ha
    rw [clearBytes_bytes s' hk hi, if_neg (by omega)]
    exact h.before a ha

/-- The screen after the first loop, and after both. -/
theorem scroll_copied (s : Screen) : Copied m s (m.width.toNat * (m.height.toNat - 9))
    (strideLoop m.scrollLength m.bpp m.bpp_pos m.scrollLength_fits (scrollPixel m) 0 s) := by
  refine strideLoop_rule m.bpp_pos m.scrollLength_fits _ ?_ ?_ ?_
  · rw [← scrollLength_rounds, UInt32.toNat_zero, Nat.zero_add]
  · exact ⟨rfl, rfl, fun p b hp => absurd hp (Nat.not_lt_zero p), fun a _ => rfl⟩
  · intro k i s' hk hi h
    rw [UInt32.toNat_zero, Nat.zero_add] at hi
    exact h.round hk hi

theorem scrollScreen_cleared (s : Screen) :
    Cleared m (strideLoop m.scrollLength m.bpp m.bpp_pos m.scrollLength_fits (scrollPixel m) 0 s)
      (m.width.toNat * m.bpp.toNat * 3) (scrollScreen m s) := by
  refine strideLoop_rule (by decide) m.scrollEnd_fits _ (scrollEnd_rounds m) ?_ ?_
  · exact ⟨rfl, rfl, fun a hlo hhi => by omega, fun a _ => rfl⟩
  · intro k i s' hk hi h
    exact h.round hk hi

/-- **The scrolled screen.** Pixel `p` gets the colour of the one nine rows below it. -/
theorem scrollScreen_bytes (s : Screen) {p b : Nat} (hp : p < m.width.toNat * m.height.toNat)
    (hb : b < 3) : (scrollScreen m s).bytes (p * m.bpp.toNat + b) =
      if p < m.width.toNat * (m.height.toNat - 9) then
        s.bytes ((p + 9 * m.width.toNat) * m.bpp.toNat + b)
      else 0 := by
  have hbpp := m.three_le_bpp
  have hcleared := scrollScreen_cleared (m := m) s
  have hlength := scrollLength_rounds m
  have hend := scrollEnd_rounds m
  rw [m.scrollEnd_toNat] at hend
  by_cases hcopy : p < m.width.toNat * (m.height.toNat - 9)
  · have hbefore : (p + 1) * m.bpp.toNat ≤ m.scrollLength.toNat := by
      rw [← hlength]
      exact Nat.mul_le_mul_right _ hcopy
    rw [Nat.succ_mul] at hbefore
    rw [if_pos hcopy, hcleared.before _ (by omega)]
    exact (scroll_copied s).done p b hcopy hb
  · have hlo : m.scrollLength.toNat ≤ p * m.bpp.toNat := by
      rw [← hlength]
      exact Nat.mul_le_mul_right _ (Nat.not_lt.mp hcopy)
    have hhi : (p + 1) * m.bpp.toNat ≤ m.size := Nat.mul_le_mul_right _ hp
    rw [Nat.succ_mul] at hhi
    rw [if_neg hcopy]
    exact hcleared.done _ (by omega) (by omega)

theorem rows_le_csrY {csrY : UInt32} (h : ¬csrY < m.height / 9) : 1 ≤ csrY.toNat := by
  have hheight := m.height_ge
  rw [UInt32.lt_iff_toNat_lt, UInt32.toNat_div] at h
  change ¬csrY.toNat < m.height.toNat / 9 at h
  omega

/-- **`vga_scroll` moves the screen up by one text row**, once the cursor is below the last one. -/
theorem vgaScroll_moves (m : VideoMode) (con : Console) :
    (con.csrY < m.height / 9 → vgaScroll m con = con) ∧
    (¬con.csrY < m.height / 9 →
      (vgaScroll m con).csrY.toNat + 1 = con.csrY.toNat ∧
      ∀ x y b, x < m.width.toNat → y < m.height.toNat → b < 3 →
        (vgaScroll m con).screen.bytes (m.byteAt x y b) =
          if y < m.height.toNat - 9 then con.screen.bytes (m.byteAt x (y + 9) b) else 0) := by
  constructor
  · intro habove
    exact if_pos habove
  · intro hbelow
    rw [vgaScroll, if_neg hbelow]
    constructor
    · have hpos := rows_le_csrY hbelow
      have hone : (1 : UInt32) ≤ con.csrY := UInt32.le_iff_toNat_le.mpr hpos
      rw [UInt32.toNat_sub_of_le _ _ hone, UInt32.toNat_one]
      omega
    · intro x y b hx hy hb
      show (scrollScreen m con.screen).bytes ((x + y * m.width.toNat) * m.bpp.toNat + b) = _
      rw [scrollScreen_bytes con.screen ((pixel_lt_iff hx).mpr hy) hb]
      simp only [pixel_lt_iff hx]
      congr 2
      unfold Mode.byteAt
      ring

end Neutrino.Drivers
