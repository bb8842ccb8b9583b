/-
Which numbers of SVG elements are finite.

The painter lets only commands through whose own numbers are finite. The writer computes further ones: the entries of a
matrix and the baseline of a text. The entries are sums of products with zero and one, and so as finite as the command
(`stored_finite`). The baseline is a sum of its own, and is finite exactly if that sum is (`baseline_finite_iff`).
-/
import FormulaLayout.Proofs.Drawing.Baselines
import FormulaLayout.Svg.Element

namespace FormulaLayout

open Single

namespace Svg.Element

/-- the numbers of an element that do not depend on a baseline -/
def stored : Element Float32 → List Float32
  | plainText x _ fontSize _ => [x, fontSize]
  | mappedText fontSize m _ => [fontSize, m.a, m.b, m.c, m.d, m.e]
  | line start finish strokeWidth => [start.x, start.y, finish.x, finish.y, strokeWidth]

/-- the number of an element that depends on a baseline -/
def derived : Element Float32 → List Float32
  | plainText _ baseline _ _ => [baseline]
  | mappedText _ m _ => [m.f]
  | line _ _ _ => []

/-- all numbers of an element -/
def numbers (e : Element Float32) : List Float32 :=
  e.stored ++ e.derived

end Svg.Element

namespace Single

variable {x z : Float32}

/-- a result that is the number of a finite value is finite -/
theorem Nearest.isFinite_of_value {z : Float32} (hz : Nearest z (value x)) (h : x.isFinite) : z.isFinite := by
  refine (hz.finite ?_).1
  rw [(isSingle_value h).rounded_eq]
  exact abs_value_lt h

theorem isFinite_mul_one (h : x.isFinite) : (x * 1.0).isFinite := by
  have hnearest := nearest_mul h isFinite_one
  rw [value_one, mul_one] at hnearest
  exact hnearest.isFinite_of_value h

theorem isFinite_mul_zero (h : x.isFinite) : (x * 0.0).isFinite := by
  have hnearest := nearest_mul h isFinite_zero
  rw [value_zero, mul_zero, ← value_zero] at hnearest
  exact hnearest.isFinite_of_value isFinite_zero

/-- nothing added to a finite value leaves it finite -/
theorem isFinite_zero_add (hz : z.isFinite) (hzero : value z = 0) (h : x.isFinite) : (z + x).isFinite := by
  have hnearest := nearest_add hz h
  rw [hzero, zero_add] at hnearest
  exact hnearest.isFinite_of_value h

end Single

namespace Svg.Element

variable {c : Command Float32}

/-- the entries of the matrix of a stretched text, but the last -/
theorem matrix_finite {stretch x : Float32} (baseline : Float32) (hstretch : stretch.isFinite) (hx : x.isFinite) :
    let m := (Transform.scaling 1.0 stretch).andThen (.translation x baseline)
    m.a.isFinite ∧ m.b.isFinite ∧ m.c.isFinite ∧ m.d.isFinite ∧ m.e.isFinite := by
  intro m
  have hnothing : value (0.0 * 1.0) = 0 ∧ value (0.0 * 0.0) = 0 ∧ value (0.0 * 1.0 + 0.0 * 0.0) = 0 := by decide +kernel
  refine ⟨?_, ?_, ?_, ?_, ?_⟩
  · change (1.0 * 1.0 + 0.0 * 0.0 : Float32).isFinite
    rfl
  · change (1.0 * 0.0 + 0.0 * 1.0 : Float32).isFinite
    rfl
  · change (0.0 * 1.0 + stretch * 0.0 : Float32).isFinite
    exact isFinite_zero_add rfl hnothing.1 (isFinite_mul_zero hstretch)
  · change (0.0 * 0.0 + stretch * 1.0 : Float32).isFinite
    exact isFinite_zero_add rfl hnothing.2.1 (isFinite_mul_one hstretch)
  · change (0.0 * 1.0 + 0.0 * 0.0 + x : Float32).isFinite
    exact isFinite_zero_add rfl hnothing.2.2 hx

/-- the last entry is finite exactly if the baseline is -/
theorem matrix_baseline_iff (stretch x baseline : Float32) :
    ((Transform.scaling 1.0 stretch).andThen (.translation x baseline)).f.isFinite ↔ baseline.isFinite := by
  have hnothing : value (0.0 * 0.0 + 0.0 * 1.0) = 0 := by decide +kernel
  change (0.0 * 0.0 + 0.0 * 1.0 + baseline : Float32).isFinite ↔ _
  exact ⟨isFinite_of_add, isFinite_zero_add rfl hnothing⟩

theorem stored_finite (h : c.isFinite) : ∀ x ∈ (ofCommand c).stored, x.isFinite := by
  cases c with
  | line l =>
    simp only [Command.isFinite, Point.isFinite, Bool.and_eq_true] at h
    obtain ⟨⟨⟨hx1, hy1⟩, hx2, hy2⟩, hwidth⟩ := h
    simp only [ofCommand, stored, List.forall_mem_cons]
    exact ⟨hx1, hy1, hx2, hy2, hwidth, nofun⟩
  | text t =>
    simp only [Command.isFinite, Point.isFinite, Bool.and_eq_true] at h
    obtain ⟨⟨⟨hx, -⟩, hsize⟩, hstretch⟩ := h
    rw [ofCommand]
    split_ifs
    · simp only [stored, List.forall_mem_cons]
      exact ⟨hx, hsize, nofun⟩
    · obtain ⟨ha, hb, hc, hd, he⟩ := matrix_finite t.baseline hstretch hx
      simp only [stored, List.forall_mem_cons]
      exact ⟨hsize, ha, hb, hc, hd, he, nofun⟩

theorem derived_finite_iff (c : Command Float32) :
    (∀ x ∈ (ofCommand c).derived, x.isFinite) ↔ ∀ t ∈ c.text?, t.baseline.isFinite := by
  cases c with
  | line l => exact iff_of_true nofun nofun
  | text t =>
    rw [ofCommand]
    split_ifs
    · simp only [derived, List.forall_mem_singleton, Command.text?, Option.mem_some_iff, forall_eq']
      rfl
    · simp only [derived, List.forall_mem_singleton, Command.text?, Option.mem_some_iff, forall_eq']
      exact matrix_baseline_iff _ _ _

/-- **The baseline alone decides.** All numbers of the element of a finite command are finite exactly if the baseline of
its text is. -/
theorem numbers_finite_iff (h : c.isFinite) :
    (∀ x ∈ (ofCommand c).numbers, x.isFinite) ↔ ∀ t ∈ c.text?, t.baseline.isFinite := by
  rw [numbers, List.forall_mem_append, derived_finite_iff]
  exact and_iff_right (stored_finite h)

end Svg.Element

end FormulaLayout
