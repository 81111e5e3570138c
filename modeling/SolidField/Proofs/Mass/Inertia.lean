import Mathlib.Algebra.BigOperators.Fin
import Mathlib.Algebra.Order.Ring.Rat
import Mathlib.LinearAlgebra.Matrix.Symmetric
import Mathlib.Tactic.FinCases
import Mathlib.Tactic.Ring
import SolidField.Mass.Cubes
import SolidField.Proofs.Geometry.Similarity

/-!
# Inertia of cubes

The integrals of reports are those of their cells, whatever cells a report has and in
whatever order the reports are added.  The inertia tensor that a measurement computes
from them is therefore the sum of the tensors of the cells about their common centroid.
-/

namespace SolidField

/-! ## The cells of a report -/

/-- The sums of a report are those over the centres of its cells that are inside. -/
theorem CellReport.inside_ofDistances (query : CellQuery) (distances : List Single) :
    (ofDistances query distances).inside =
      .ofCentres (query.insideCentres distances) := by
  have step (report : CellReport) (cell : Single × Nat) :
      (report.add query (.ofQuery query) cell).inside =
        (query.insideCentre? cell).elim report.inside report.inside.add := by
    rcases cell with ⟨distance, position⟩
    rw [add, CellQuery.insideCentre?]
    cases query.intersects distance with
    | true => rfl
    | false =>
        cases distance.less 0 with
        | false => rfl
        | true =>
            cases unpackIndex? (UInt32.ofNat position) query.dims <;> rfl
  have folded (cells : List (Single × Nat)) (report : CellReport) :
      (cells.foldl (add query (.ofQuery query)) report).inside =
        (cells.filterMap query.insideCentre?).foldl InsideSums.add report.inside := by
    induction cells generalizing report with
    | nil => rfl
    | cons cell cells induction =>
        rw [List.foldl_cons, induction, step, List.filterMap_cons]
        cases query.insideCentre? cell <;> rfl
  exact folded _ _

/-! ## Components -/

theorem Scalar.ofNat_rat (number : Nat) : (Scalar.ofNat number : ℚ) = number := rfl

namespace Vec3

section Components

variable {α : Type} [Scalar α] (v w : Vec3 α)

@[simp]
theorem x_zero : (0 : Vec3 α).x = 0 := rfl

@[simp]
theorem y_zero : (0 : Vec3 α).y = 0 := rfl

@[simp]
theorem z_zero : (0 : Vec3 α).z = 0 := rfl

@[simp]
theorem x_sub : (v - w).x = v.x - w.x := rfl

@[simp]
theorem y_sub : (v - w).y = v.y - w.y := rfl

@[simp]
theorem z_sub : (v - w).z = v.z - w.z := rfl

@[simp]
theorem x_times : (v.times w).x = v.x * w.x := rfl

@[simp]
theorem y_times : (v.times w).y = v.y * w.y := rfl

@[simp]
theorem z_times : (v.times w).z = v.z * w.z := rfl

@[simp]
theorem x_pairProducts : v.pairProducts.x = v.x * v.y := rfl

@[simp]
theorem y_pairProducts : v.pairProducts.y = v.x * v.z := rfl

@[simp]
theorem z_pairProducts : v.pairProducts.z = v.y * v.z := rfl

end Components

end Vec3

namespace RegionIntegrals

attribute [ext] RegionIntegrals

section Components

variable {α : Type} [Scalar α] (a b : RegionIntegrals α)

@[simp]
theorem volume_add : (a + b).volume = a.volume + b.volume := rfl

@[simp]
theorem moment_add : (a + b).moment = a.moment + b.moment := rfl

@[simp]
theorem secondMoment_add : (a + b).secondMoment = a.secondMoment + b.secondMoment := rfl

@[simp]
theorem productMoment_add :
    (a + b).productMoment = a.productMoment + b.productMoment := rfl

end Components

end RegionIntegrals

/-! ## Sums by volume -/

namespace Cube

variable {cubes others : List Cube}

@[simp]
theorem weigh_nil (quantity : Cube → ℚ) : weigh [] quantity = 0 := rfl

@[simp]
theorem weigh_cons (cube : Cube) (cubes : List Cube) (quantity : Cube → ℚ) :
    weigh (cube :: cubes) quantity =
      cube.volume * quantity cube + weigh cubes quantity := by
  rw [weigh, List.map_cons, List.sum_cons, weigh]

theorem weigh_append (cubes others : List Cube) (quantity : Cube → ℚ) :
    weigh (cubes ++ others) quantity = weigh cubes quantity + weigh others quantity := by
  rw [weigh, List.map_append, List.sum_append, weigh, weigh]

theorem weigh_perm (perm : cubes.Perm others) (quantity : Cube → ℚ) :
    weigh cubes quantity = weigh others quantity :=
  (perm.map _).sum_eq

theorem weigh_congr {first second : Cube → ℚ} (same : ∀ cube, first cube = second cube)
    (cubes : List Cube) : weigh cubes first = weigh cubes second :=
  congrArg (weigh cubes) (funext same)

theorem weigh_add (cubes : List Cube) (first second : Cube → ℚ) :
    weigh cubes (fun cube => first cube + second cube) =
      weigh cubes first + weigh cubes second := by
  induction cubes with
  | nil => exact (add_zero 0).symm
  | cons cube cubes induction =>
      simp only [weigh_cons, induction]
      ring

theorem weigh_neg (cubes : List Cube) (quantity : Cube → ℚ) :
    weigh cubes (fun cube => -quantity cube) = -weigh cubes quantity := by
  induction cubes with
  | nil => rfl
  | cons cube cubes induction =>
      simp only [weigh_cons, induction]
      ring

/-- The parallel axis theorem: a product of offsets from any two values. -/
theorem weigh_offsets (cubes : List Cube) (first second : Cube → ℚ) (a b : ℚ) :
    weigh cubes (fun cube => (first cube - a) * (second cube - b)) =
      weigh cubes (fun cube => first cube * second cube) - a * weigh cubes second -
        weigh cubes first * b + weigh cubes 1 * a * b := by
  induction cubes with
  | nil => simp
  | cons cube cubes induction =>
      simp only [weigh_cons, induction, Pi.one_apply]
      ring

/-- Offsets from the means leave out what the means account for. -/
theorem weigh_offsets_of_means {first second : Cube → ℚ} {a b : ℚ}
    (firstMean : weigh cubes first = weigh cubes 1 * a)
    (secondMean : weigh cubes second = weigh cubes 1 * b) :
    weigh cubes (fun cube => (first cube - a) * (second cube - b)) =
      weigh cubes (fun cube => first cube * second cube) - weigh cubes 1 * a * b := by
  rw [weigh_offsets, firstMean, secondMean]
  ring

/-- What a cube is wide adds to the squares of its offsets, about any value. -/
theorem weigh_spread_of_mean {quantity : Cube → ℚ} {a : ℚ}
    (mean : weigh cubes quantity = weigh cubes 1 * a) :
    weigh cubes (fun cube =>
        (quantity cube - a) * (quantity cube - a) + cube.edge ^ 2 / 12) =
      weigh cubes (fun cube => quantity cube * quantity cube + cube.edge ^ 2 / 12) -
        weigh cubes 1 * a * a := by
  rw [weigh_add, weigh_add, weigh_offsets_of_means mean mean]
  ring

theorem weigh_one_nonneg (cubes : List Cube) : 0 ≤ weigh cubes 1 := by
  induction cubes with
  | nil => exact le_refl 0
  | cons cube cubes induction =>
      rw [weigh_cons, Pi.one_apply, mul_one]
      exact add_nonneg (pow_nonneg cube.positive.le 3) induction

/-- Only no cubes at all have no volume. -/
theorem weigh_one_pos (nonempty : cubes ≠ []) : 0 < weigh cubes 1 := by
  cases cubes with
  | nil => exact absurd rfl nonempty
  | cons cube cubes =>
      rw [weigh_cons, Pi.one_apply, mul_one]
      exact add_pos_of_pos_of_nonneg (pow_pos cube.positive 3) (weigh_one_nonneg cubes)

end Cube

/-! ## The integrals over cubes -/

namespace RegionIntegrals

/-- The integrals over cubes: those over each of them, added. -/
def ofCubes (cubes : List Cube) : RegionIntegrals ℚ :=
  let weigh := Cube.weigh cubes
  { volume := weigh 1
    moment := ⟨weigh (·.centre.x), weigh (·.centre.y), weigh (·.centre.z)⟩
    secondMoment :=
      ⟨weigh fun cube => cube.centre.x * cube.centre.x + cube.edge ^ 2 / 12,
        weigh fun cube => cube.centre.y * cube.centre.y + cube.edge ^ 2 / 12,
        weigh fun cube => cube.centre.z * cube.centre.z + cube.edge ^ 2 / 12⟩
    productMoment :=
      ⟨weigh fun cube => cube.centre.x * cube.centre.y,
        weigh fun cube => cube.centre.x * cube.centre.z,
        weigh fun cube => cube.centre.y * cube.centre.z⟩ }

theorem ofCubes_append (cubes others : List Cube) :
    ofCubes (cubes ++ others) = ofCubes cubes + ofCubes others := by
  simp only [ofCubes, Cube.weigh_append]
  rfl

theorem ofCubes_perm {cubes others : List Cube} (perm : cubes.Perm others) :
    ofCubes cubes = ofCubes others := by
  simp only [ofCubes, Cube.weigh_perm perm]

theorem sum_assoc (a b c : RegionIntegrals ℚ) : a + b + c = a + (b + c) := by
  ext <;> exact add_assoc _ _ _

/-- One more cell adds the integrals over it. -/
theorem integrals_add (sums : InsideSums ℚ) {edge : ℚ} (positive : 0 < edge)
    (centre : Vec3 ℚ) :
    (sums.add centre).integrals edge false =
      sums.integrals edge false + ofCubes [⟨edge, centre, positive⟩] := by
  ext
  all_goals
    simp [ofCubes, InsideSums.integrals, InsideSums.add, Cube.volume, Scalar.ofNat_rat]
    ring

/-- A report has the integrals over its cells. -/
theorem integrals_foldl_add (sums : InsideSums ℚ) {edge : ℚ} (positive : 0 < edge)
    (centres : List (Vec3 ℚ)) :
    (centres.foldl InsideSums.add sums).integrals edge false =
      sums.integrals edge false +
        ofCubes (centres.map fun centre => ⟨edge, centre, positive⟩) := by
  induction centres generalizing sums with
  | nil => ext <;> exact (add_zero _).symm
  | cons centre centres induction =>
      rw [List.foldl_cons, induction, integrals_add sums positive, sum_assoc,
        ← ofCubes_append]
      rfl

end RegionIntegrals

/-- The total of reports is that over their cells, in whatever order they are added. -/
theorem CubeSum.total_eq (parts : CubeSum) : parts.total = .ofCubes parts.cubes := by
  induction parts with
  | empty => rfl
  | report edge positive centres =>
      rw [total, InsideSums.ofCentres,
        RegionIntegrals.integrals_foldl_add .empty positive centres]
      ext <;> simp [InsideSums.empty, InsideSums.integrals, Scalar.ofNat_rat, cubes]
  | sum first second firstInduction secondInduction =>
      rw [total, firstInduction, secondInduction, cubes, RegionIntegrals.ofCubes_append]

/-! ## The inertia tensor -/

/-- The entries of the sum of the tensors of cubes. -/
theorem Cube.sum_inertiaAbout_apply (cubes : List Cube) (point : Vec3 ℚ)
    (row column : Fin 3) :
    (cubes.map fun cube => cube.inertiaAbout point).sum row column =
      weigh cubes fun cube =>
        let offset := (cube.centre - point).coordinates
        (cube.edge ^ 2 / 6 + offset ⬝ᵥ offset) *
            (1 : Matrix (Fin 3) (Fin 3) ℚ) row column -
          offset row * offset column := by
  induction cubes with
  | nil => rfl
  | cons cube cubes induction =>
      rw [List.map_cons, List.sum_cons, Matrix.add_apply, induction, weigh_cons]
      rfl

namespace RegionIntegrals

/-- The tensor of cubes about their centre of mass, from the offsets of their centres. -/
theorem ofCubes_inertiaAbout {cubes : List Cube} {point : Vec3 ℚ}
    (means : (ofCubes cubes).moment = point.scale (ofCubes cubes).volume) :
    let weigh := Cube.weigh cubes
    let x (cube : Cube) := cube.centre.x - point.x
    let y (cube : Cube) := cube.centre.y - point.y
    let z (cube : Cube) := cube.centre.z - point.z
    let spread (offset : Cube → ℚ) :=
      weigh fun cube => offset cube * offset cube + cube.edge ^ 2 / 12
    (ofCubes cubes).inertiaAbout point =
      ⟨⟨spread y + spread z, -weigh fun cube => x cube * y cube,
          -weigh fun cube => x cube * z cube⟩,
        ⟨-weigh fun cube => x cube * y cube, spread x + spread z,
          -weigh fun cube => y cube * z cube⟩,
        ⟨-weigh fun cube => x cube * z cube, -weigh fun cube => y cube * z cube,
          spread x + spread y⟩⟩ := by
  intro weigh x y z spread
  have meanX : weigh (·.centre.x) = weigh 1 * point.x :=
    (congrArg Vec3.x means).trans (mul_comm _ _)
  have meanY : weigh (·.centre.y) = weigh 1 * point.y :=
    (congrArg Vec3.y means).trans (mul_comm _ _)
  have meanZ : weigh (·.centre.z) = weigh 1 * point.z :=
    (congrArg Vec3.z means).trans (mul_comm _ _)
  by_cases empty : cubes = []
  · subst empty
    simp only [spread, weigh, Cube.weigh_nil, add_zero, neg_zero]
    rfl
  · have solid : Scalar.atMost (ofCubes cubes).volume 0 = false :=
      decide_eq_false (not_le.mpr (Cube.weigh_one_pos empty))
    simp only [spread, weigh, x, y, z, Cube.weigh_spread_of_mean meanX,
      Cube.weigh_spread_of_mean meanY, Cube.weigh_spread_of_mean meanZ,
      Cube.weigh_offsets_of_means meanX meanY, Cube.weigh_offsets_of_means meanX meanZ,
      Cube.weigh_offsets_of_means meanY meanZ]
    rw [inertiaAbout, solid]
    rfl

/-- About their centre of mass the tensor of cubes is the sum of the tensors of each. -/
theorem toMatrix_inertiaAbout (cubes : List Cube) {point : Vec3 ℚ}
    (means : (ofCubes cubes).moment = point.scale (ofCubes cubes).volume) :
    ((ofCubes cubes).inertiaAbout point).toMatrix =
      (cubes.map fun cube => cube.inertiaAbout point).sum := by
  ext row column
  rw [Cube.sum_inertiaAbout_apply, ofCubes_inertiaAbout means]
  -- Entry by entry both sides sum the same over the cubes.
  fin_cases row <;> fin_cases column
  all_goals
    simp only [Matrix3.toMatrix, Vec3.coordinates, Matrix.of_apply, Matrix.cons_val,
      dotProduct, Fin.sum_univ_three, Vec3.x_sub, Vec3.y_sub, Vec3.z_sub,
      Fin.zero_eta, Fin.mk_one, Fin.reduceFinMk, Fin.isValue, Matrix.one_apply,
      Fin.reduceEq, if_true, if_false, ← Cube.weigh_add, ← Cube.weigh_neg]
    exact Cube.weigh_congr (fun cube => by ring) cubes

/-- The tensor is symmetric, whatever the integrals are. -/
theorem isSymm_inertiaAbout (total : RegionIntegrals ℚ) (point : Vec3 ℚ) :
    (total.inertiaAbout point).toMatrix.IsSymm := by
  ext row column
  rw [inertiaAbout]
  split
  · fin_cases row <;> fin_cases column <;> rfl
  · fin_cases row <;> fin_cases column <;> rfl

theorem volume_ofCubes (cubes : List Cube) :
    (ofCubes cubes).volume = (cubes.map Cube.volume).sum := by
  simp only [ofCubes, Cube.weigh, Pi.one_apply, mul_one]

theorem moment_ofCubes (cubes : List Cube) :
    (ofCubes cubes).moment.coordinates =
      (cubes.map fun cube => cube.volume • cube.centre.coordinates).sum := by
  induction cubes with
  | nil =>
      funext axis
      fin_cases axis <;> rfl
  | cons cube cubes induction =>
      rw [List.map_cons, List.sum_cons, ← induction]
      funext axis
      fin_cases axis <;> rfl

/-- The centre of mass is what the moment is to the volume; without cubes, the origin. -/
theorem centroid_ofCubes (cubes : List Cube) :
    (ofCubes cubes).centroid = (ofCubes cubes).moment.divide (ofCubes cubes).volume := by
  by_cases empty : cubes = []
  · subst empty
    decide +kernel
  · exact if_pos (decide_eq_true (Cube.weigh_one_pos empty))

/-- The moment of cubes is that of their volume at their centre of mass. -/
theorem moment_eq_scale_centroid (cubes : List Cube) :
    (ofCubes cubes).moment =
      ((ofCubes cubes).moment.divide (ofCubes cubes).volume).scale
        (ofCubes cubes).volume := by
  by_cases empty : cubes = []
  · subst empty
    decide +kernel
  · have solid : (ofCubes cubes).volume ≠ 0 := (Cube.weigh_one_pos empty).ne'
    ext <;> exact (div_mul_cancel₀ _ solid).symm

end RegionIntegrals

namespace CubeSum

/--
However cubes are grouped into reports of one edge, and in whatever order the reports are
added, the total has the volume and the moment of the cubes, and the inertia tensor about
their common centroid that a measurement computes from it is symmetric and the sum of the
tensors of the cubes.
-/
theorem inertiaAbout_centroid (parts : CubeSum) (cubes : List Cube)
    (grouped : parts.cubes.Perm cubes) :
    let total := parts.total
    let centroid := total.moment.divide total.volume
    total.volume = (cubes.map Cube.volume).sum ∧
      total.moment.coordinates =
        (cubes.map fun cube => cube.volume • cube.centre.coordinates).sum ∧
      total.centroid = centroid ∧
      (total.inertiaAbout centroid).toMatrix.IsSymm ∧
      (total.inertiaAbout centroid).toMatrix =
        (cubes.map fun cube => cube.inertiaAbout centroid).sum := by
  intro total centroid
  have same : total = .ofCubes cubes :=
    parts.total_eq.trans (RegionIntegrals.ofCubes_perm grouped)
  refine ⟨?_, ?_, ?_, total.isSymm_inertiaAbout centroid, ?_⟩
  · rw [same, RegionIntegrals.volume_ofCubes]
  · rw [same, RegionIntegrals.moment_ofCubes]
  · simp only [centroid, same, RegionIntegrals.centroid_ofCubes]
  · simp only [centroid, same]
    exact RegionIntegrals.toMatrix_inertiaAbout cubes
      (RegionIntegrals.moment_eq_scale_centroid cubes)

/--
A cube of edge two between two unit cubes, each in a report of its own: grouped by size,
they have the same integrals and tensor.
-/
theorem threeCubes_inertiaAbout_centroid :
    let parts : CubeSum :=
      .sum (.report 1 one_pos [⟨0, 0, 1⟩])
        (.sum (.report 2 two_pos [⟨3, 1, 0⟩]) (.report 1 one_pos [⟨0, 2, 0⟩]))
    let cubes : List Cube :=
      [⟨2, ⟨3, 1, 0⟩, two_pos⟩, ⟨1, ⟨0, 0, 1⟩, one_pos⟩, ⟨1, ⟨0, 2, 0⟩, one_pos⟩]
    let total := parts.total
    parts.cubes.Perm cubes ∧ total.volume = 10 ∧ total.moment = ⟨24, 10, 1⟩ ∧
      total.centroid = ⟨12 / 5, 1, 1 / 10⟩ ∧
      (total.inertiaAbout total.centroid).first.z = 12 / 5 ∧
      (total.inertiaAbout total.centroid).toMatrix =
        (cubes.map fun cube => cube.inertiaAbout total.centroid).sum := by
  intro parts cubes total
  have grouped : parts.cubes.Perm cubes := List.Perm.swap _ _ _
  rcases inertiaAbout_centroid parts cubes grouped with ⟨-, -, centroid, -, tensor⟩
  refine ⟨grouped, by decide +kernel, by decide +kernel, by decide +kernel,
    by decide +kernel, ?_⟩
  rw [centroid]
  exact tensor

end CubeSum

end SolidField
