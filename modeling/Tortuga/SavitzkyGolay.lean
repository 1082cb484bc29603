import Tortuga.LeastSquares
import Tortuga.SlidingWindows
import Mathlib.Algebra.Polynomial.HasseDeriv
import Mathlib.Algebra.Polynomial.Taylor
import Mathlib.Data.List.Induction

/-!
The Savitzky-Golay filter (`SGolaySmoothingFilter.cpp`, `factorial` of `Helpers.cpp`), in exact
arithmetic: the samples its window holds, and the derivatives it finds of a polynomial.
-/
namespace Tortuga.SavitzkyGolay
open Matrix Polynomial Tortuga.LeastSquares Tortuga.SlidingWindows

/-! ### The factorial -/

/-- The loop of `factorial` from `num` down, in 32 bits. -/
def factorialLoop : ℕ → ℤ → ℤ
  | 0, ans => ans
  | 1, ans => ans
  | num + 2, ans => factorialLoop (num + 1) ((ans * (num + 2)).bmod (2 ^ 32))

def factorial (num : ℤ) : ℤ := factorialLoop num.toNat 1

theorem natAbs_bmod_le (x : ℤ) {m : ℕ} (positive : 0 < m) : (x.bmod m).natAbs ≤ x.natAbs := by
  have low := Int.le_bmod (x := x) positive
  have high := Int.bmod_lt (x := x) positive
  by_cases fits : -(m : ℤ) ≤ x * 2 ∧ x * 2 < m
  · rw [Int.bmod_eq_of_le_mul_two fits.1 fits.2]
  · omega

theorem factorialLoop_le (num : ℕ) (ans : ℤ) : (factorialLoop num ans).natAbs ≤ ans.natAbs * num.factorial := by
  induction num, ans using factorialLoop.induct with
  | case1 ans => simp [factorialLoop]
  | case2 ans => simp [factorialLoop]
  | case3 num ans ih =>
    have kept : ((ans * (num + 2)).bmod (2 ^ 32)).natAbs ≤ (ans * (num + 2)).natAbs := natAbs_bmod_le _ (by norm_num)
    have product : (ans * (num + 2)).natAbs = ans.natAbs * (num + 2) := Int.natAbs_mul ans (num + 2)
    calc (factorialLoop (num + 2) ans).natAbs
        ≤ ((ans * (num + 2)).bmod (2 ^ 32)).natAbs * (num + 1).factorial := ih
      _ ≤ ans.natAbs * (num + 2) * (num + 1).factorial := Nat.mul_le_mul_right _ (kept.trans_eq product)
      _ = ans.natAbs * (num + 2).factorial := by rw [Nat.mul_assoc, Nat.factorial_succ (num + 1)]

/-- The factorial of one less is another number, from two on. -/
theorem factorial_pred_ne {k : ℕ} (some : 2 ≤ k) : factorial (k - 1) ≠ k.factorial := by
  intro same
  obtain ⟨n, rfl⟩ : ∃ n, k = n + 1 := ⟨k - 1, by omega⟩
  have few := factorialLoop_le n 1
  have value : factorial n = factorialLoop n 1 := rfl
  have grows : n.factorial < (n + 1).factorial := (Nat.factorial_lt (by omega)).mpr n.lt_succ_self
  rw [Nat.cast_succ, add_sub_cancel_right, value] at same
  rw [same, Int.natAbs_natCast, Int.natAbs_one, Nat.one_mul] at few
  omega

/-! ### The filter -/

variable {K : Type} [Field K]

/-- `m_windowSize` and `m_degree` are parameters: only the constructor sets them. -/
structure SGolaySmoothingFilter (K : Type) (windowSize degree : ℕ) where
  values : List K
  windowData : Fin windowSize → K
  coeffMatrix : Matrix (Fin (degree + 1)) (Fin windowSize) K

/-- The window that the constructor takes for a `size`: the next odd number. -/
def windowSizeFor (size : ℕ) : ℕ := size + (size + 1) % 2

theorem windowSizeFor_pos (size : ℕ) : 0 < windowSizeFor size := by
  unfold windowSizeFor
  omega

/-- The distance of a row of the window from the last row. -/
def base (windowSize : ℕ) (row : Fin windowSize) : K := (row : ℕ) - ((windowSize : K) - 1)

/-- The powers of the distances; the first column is skipped. -/
def designMatrix (windowSize degree : ℕ) : Matrix (Fin windowSize) (Fin (degree + 1)) K :=
  fun row col => if col = 0 then 1 else base windowSize row ^ (col : ℕ)

namespace SGolaySmoothingFilter
variable {α : Type} {windowSize degree : ℕ}

def new (size : ℕ)
    (inverse : Matrix (Fin (degree + 1)) (Fin (degree + 1)) K → Matrix (Fin (degree + 1)) (Fin (degree + 1)) K) :
    SGolaySmoothingFilter K (windowSizeFor size) degree :=
  let design : Matrix (Fin (windowSizeFor size)) (Fin (degree + 1)) K := designMatrix (windowSizeFor size) degree
  { values := List.replicate degree 0
    windowData := fun _ => 0
    coeffMatrix := inverse (designᵀ * design) * designᵀ }

/-- The loop of `addValue`: each slot takes the next one's value, and the last slot the new value. -/
def shift (windowData : Fin windowSize → α) (newValue : α) (i : Fin windowSize) : α :=
  if h : i + 1 < windowSize then windowData ⟨i + 1, h⟩ else newValue

theorem ofFn_shift (positive : 0 < windowSize) (windowData : Fin windowSize → α) (v : α) :
    List.ofFn (shift windowData v) = (List.ofFn windowData).tail ++ [v] := by
  obtain ⟨n, rfl⟩ : ∃ n, windowSize = n + 1 := ⟨windowSize - 1, by omega⟩
  have moved (i : Fin n) : shift windowData v i.castSucc = windowData i.succ := dif_pos i.succ.isLt
  have entered : shift windowData v (Fin.last n) = v := dif_neg (by simp)
  have rest : (List.ofFn windowData).tail = List.ofFn fun i : Fin n => windowData i.succ := by
    rw [List.ofFn_succ, List.tail_cons]
  rw [List.ofFn_succ_last, entered, rest]
  simp only [moved]

def addValue (filter : SGolaySmoothingFilter K windowSize degree) (newValue : K) : SGolaySmoothingFilter K windowSize degree :=
  let windowData := shift filter.windowData newValue
  { filter with windowData, values := List.ofFn (filter.coeffMatrix.mulVec windowData) }

/-- `none` is a read behind the values. -/
def getValue [LinearOrder K] (filter : SGolaySmoothingFilter K windowSize degree) (order : ℤ) (timestep : K) : Option K :=
  if order = 0 then
    filter.values[order.toNat]?
  else if 0 < order ∧ order < degree ∧ 0 < timestep then
    filter.values[order.toNat]?.map fun value => value * (factorial (order - 1) : ℤ) / timestep ^ order.toNat
  else
    some 0

end SGolaySmoothingFilter

/-! ### The window -/

section
variable {size degree : ℕ}
  {inverse : Matrix (Fin (degree + 1)) (Fin (degree + 1)) K → Matrix (Fin (degree + 1)) (Fin (degree + 1)) K}

/-- A new filter after the samples. -/
def run (size : ℕ)
    (inverse : Matrix (Fin (degree + 1)) (Fin (degree + 1)) K → Matrix (Fin (degree + 1)) (Fin (degree + 1)) K)
    (samples : List K) : SGolaySmoothingFilter K (windowSizeFor size) degree :=
  samples.foldl SGolaySmoothingFilter.addValue (.new size inverse)

/-- The last samples of a window, with zeros before the first sample. -/
def recent (windowSize : ℕ) (samples : List K) : List K := lastOf windowSize (List.replicate windowSize 0 ++ samples)

theorem recent_snoc {windowSize : ℕ} (positive : 0 < windowSize) (samples : List K) (v : K) :
    recent windowSize (samples ++ [v]) = (recent windowSize samples).tail ++ [v] := by
  have long : windowSize ≤ (List.replicate windowSize 0 ++ samples).length := by simp
  rw [recent, ← List.append_assoc, lastOf_snoc long positive, recent]

/-- A window full of samples. -/
theorem recent_full {windowSize : ℕ} (earlier : List K) {samples : List K} (full : samples.length = windowSize) :
    recent windowSize (earlier ++ samples) = samples := by
  have place : (List.replicate windowSize 0 ++ earlier ++ samples).length - windowSize =
      (List.replicate windowSize 0 ++ earlier).length := by
    rw [List.length_append, full, Nat.add_sub_cancel]
  rw [recent, ← List.append_assoc, lastOf, place, List.drop_left]

theorem run_snoc (samples : List K) (v : K) : run size inverse (samples ++ [v]) = (run size inverse samples).addValue v := by
  rw [run, List.foldl_append]
  rfl

theorem windowData_run (samples : List K) :
    List.ofFn (run size inverse samples).windowData = recent (windowSizeFor size) samples := by
  induction samples using List.reverseRecOn with
  | nil =>
    rw [recent, List.append_nil, lastOf_short (by simp)]
    exact List.ofFn_const (windowSizeFor size) 0
  | append_singleton samples v ih =>
    rw [run_snoc, recent_snoc (windowSizeFor_pos size), ← ih]
    exact SGolaySmoothingFilter.ofFn_shift (windowSizeFor_pos size) _ v

theorem coeffMatrix_run (samples : List K) :
    (run size inverse samples).coeffMatrix = (SGolaySmoothingFilter.new size inverse).coeffMatrix := by
  induction samples using List.reverseRecOn with
  | nil => rfl
  | append_singleton samples v ih =>
    rw [run_snoc]
    exact ih

/-- Once there is a sample, the values are fitted to the window. -/
theorem values_run {samples : List K} (some : samples ≠ []) :
    (run size inverse samples).values =
      List.ofFn ((SGolaySmoothingFilter.new size inverse).coeffMatrix.mulVec (run size inverse samples).windowData) := by
  induction samples using List.reverseRecOn with
  | nil => exact absurd rfl some
  | append_singleton samples v _ =>
    rw [← coeffMatrix_run samples, run_snoc]
    rfl

end

/-! ### Samples of a polynomial -/

section
variable {windowSize degree : ℕ}

/-- Samples at equal steps, the newest at `t`. -/
noncomputable def samplesOf (windowSize : ℕ) (p : K[X]) (t dt : K) : List K :=
  List.ofFn fun i : Fin windowSize => p.eval (t + base windowSize i * dt)

/-- The derivatives of the polynomial at `t`, over the factorials and in steps. -/
noncomputable def scaled (degree : ℕ) (p : K[X]) (t dt : K) (k : Fin (degree + 1)) : K := (taylor t p).coeff k * dt ^ (k : ℕ)

theorem designMatrix_powers : designMatrix windowSize degree = powers (base (K := K) windowSize) (degree + 1) := by
  funext row col
  by_cases first : col = 0
  · simp [designMatrix, powers, first]
  · simp [designMatrix, powers, first]

theorem base_injective [CharZero K] : Function.Injective (base (K := K) windowSize) := by
  intro i j same
  have rows : ((i : ℕ) : K) = (j : ℕ) := sub_left_injective same
  exact Fin.ext (Nat.cast_injective rows)

/-- The samples are the powers of the distances with the scaled derivatives. -/
theorem samples_eq {p : K[X]} (low : p.natDegree ≤ degree) (t dt : K) :
    (fun i : Fin windowSize => p.eval (t + base windowSize i * dt)) =
      (designMatrix windowSize degree).mulVec (scaled degree p t dt) := by
  funext i
  have few : (taylor t p).natDegree < degree + 1 := by
    rw [natDegree_taylor]
    omega
  have place : p.eval (t + base windowSize i * dt) = (taylor t p).eval (base windowSize i * dt) := by
    rw [taylor_eval, add_comm]
  rw [place, eval_eq_sum_range' few, Finset.sum_range, mulVec, dotProduct, designMatrix_powers]
  refine Finset.sum_congr rfl fun k _ => ?_
  rw [powers, scaled, mul_pow]
  ring

theorem derivative_eval (p : K[X]) (t : K) (k : ℕ) : (derivative^[k] p).eval t = k.factorial * (taylor t p).coeff k := by
  rw [← factorial_smul_hasseDeriv, taylor_coeff]
  simp

theorem scaled_entry (p : K[X]) (t dt : K) {k : ℕ} (last : k ≤ degree) :
    (List.ofFn (scaled degree p t dt))[k]? = some ((taylor t p).coeff k * dt ^ k) := by
  rw [List.getElem?_ofFn, dif_pos (by omega)]
  rfl

theorem samplesOf_length (p : K[X]) (t dt : K) : (samplesOf windowSize p t dt).length = windowSize := List.length_ofFn

end

/-! ### The derivatives -/

section
variable [LinearOrder K] {windowSize degree : ℕ} {p : K[X]} {t dt : K} {filter : SGolaySmoothingFilter K windowSize degree}

theorem getValue_zero (fitted : filter.values = List.ofFn (scaled degree p t dt)) : filter.getValue 0 dt = some (p.eval t) := by
  rw [SGolaySmoothingFilter.getValue, if_pos rfl, fitted, Int.toNat_zero, scaled_entry p t dt (Nat.zero_le degree)]
  simp

/-- Below the degree the factorial is that of the order before. -/
theorem getValue_below (fitted : filter.values = List.ofFn (scaled degree p t dt)) (positive : 0 < dt) {k : ℕ} (first : 1 ≤ k)
    (below : k < degree) : filter.getValue k dt = some ((taylor t p).coeff k * (factorial (k - 1) : ℤ)) := by
  have step : dt ^ k ≠ 0 := pow_ne_zero k positive.ne'
  have order : (0 : ℤ) < k ∧ (k : ℤ) < degree ∧ 0 < dt := ⟨by omega, by omega, positive⟩
  rw [SGolaySmoothingFilter.getValue, if_neg (by omega), if_pos order, fitted, Int.toNat_natCast, scaled_entry p t dt below.le,
    Option.map_some, mul_right_comm, mul_div_cancel_right₀ _ step]

/-- The order of the degree itself is left out. -/
theorem getValue_degree (room : 1 ≤ degree) : filter.getValue degree dt = some 0 := by
  rw [SGolaySmoothingFilter.getValue, if_neg (by omega), if_neg (by omega)]

end

section
variable [LinearOrder K] [IsStrictOrderedRing K] {size windowSize degree : ℕ} {p : K[X]} {t dt : K}
  {filter : SGolaySmoothingFilter K windowSize degree}
  {inverse : Matrix (Fin (degree + 1)) (Fin (degree + 1)) K → Matrix (Fin (degree + 1)) (Fin (degree + 1)) K}

/-- `MatrixN::inverse`, taken as exact. -/
def Inverts (inverse : Matrix (Fin (degree + 1)) (Fin (degree + 1)) K → Matrix (Fin (degree + 1)) (Fin (degree + 1)) K) : Prop :=
  ∀ A, A.det ≠ 0 → inverse A * A = 1

/-- The filter gives the value and all derivatives of the polynomial at the newest sample. -/
def Reproduces (filter : SGolaySmoothingFilter K windowSize degree) (p : K[X]) (t dt : K) : Prop :=
  filter.getValue 0 dt = some (p.eval t) ∧
    ∀ k : ℕ, 1 ≤ k → k ≤ degree → filter.getValue k dt = some ((derivative^[k] p).eval t)

theorem design_injective (fits : degree < windowSize) :
    Function.Injective (designMatrix (K := K) windowSize degree).mulVec := by
  rw [designMatrix_powers]
  exact powers_injective base_injective (by rwa [Fintype.card_fin])

/-- After a window of samples of a polynomial the values are its derivatives, over the factorials and in steps. -/
theorem values_samples (exact : Inverts inverse) (fits : degree < windowSizeFor size) (low : p.natDegree ≤ degree) (earlier : List K) :
    (run size inverse (earlier ++ samplesOf (windowSizeFor size) p t dt)).values = List.ofFn (scaled degree p t dt) := by
  have full : (samplesOf (windowSizeFor size) p t dt).length = windowSizeFor size := samplesOf_length p t dt
  have some : earlier ++ samplesOf (windowSizeFor size) p t dt ≠ [] := by
    have positive := windowSizeFor_pos size
    intro none
    have short := congrArg List.length none
    rw [List.length_append, full, List.length_nil] at short
    omega
  have data : (run size inverse (earlier ++ samplesOf (windowSizeFor size) p t dt)).windowData =
      (designMatrix (windowSizeFor size) degree).mulVec (scaled degree p t dt) := by
    rw [← samples_eq low t dt]
    apply List.ofFn_injective
    rw [windowData_run, recent_full earlier full, samplesOf]
  rw [values_run some, data]
  exact congrArg List.ofFn (fit_exact (exact _ (det_gram_ne_zero (design_injective fits))) _)

/-- An order is right where the derivative is zero, and the first order also elsewhere when it is not the last. -/
theorem getValue_iff (fitted : filter.values = List.ofFn (scaled degree p t dt)) (positive : 0 < dt) {k : ℕ} (first : 1 ≤ k)
    (last : k ≤ degree) : filter.getValue k dt = some ((derivative^[k] p).eval t) ↔
      (taylor t p).coeff k = 0 ∨ k = 1 ∧ 2 ≤ degree := by
  have nonzero : (k.factorial : K) ≠ 0 := Nat.cast_ne_zero.mpr k.factorial_ne_zero
  rw [derivative_eval]
  rcases last.lt_or_eq with below | rfl
  · rw [getValue_below fitted positive first below, Option.some_inj, mul_comm, mul_eq_mul_right_iff, or_comm]
    refine or_congr_right ?_
    constructor
    · intro same
      have value : factorial (k - 1) = k.factorial := by exact_mod_cast same
      have one : ¬ 2 ≤ k := fun some => factorial_pred_ne some value
      omega
    · rintro ⟨rfl, -⟩
      simp [factorial, factorialLoop]
  · rw [getValue_degree first, Option.some_inj, eq_comm, mul_eq_zero, or_iff_right nonzero]
    refine (or_iff_left ?_).symm
    omega

/-- All orders are right for a constant, and for a line when the degree leaves room for it. -/
theorem reproduces_iff (fitted : filter.values = List.ofFn (scaled degree p t dt)) (positive : 0 < dt) (low : p.natDegree ≤ degree) :
    Reproduces filter p t dt ↔ p.natDegree = 0 ∨ p.natDegree = 1 ∧ 2 ≤ degree := by
  rw [Reproduces, and_iff_right (getValue_zero fitted), ← natDegree_taylor p t]
  rw [← natDegree_taylor p t] at low
  constructor
  · intro all
    by_contra! fails
    obtain ⟨some, line⟩ := fails
    have order := (getValue_iff fitted positive (by omega) low).mp (all _ (by omega) low)
    have top : (taylor t p).coeff (taylor t p).natDegree ≠ 0 := by
      intro zero
      have none : taylor t p = 0 := leadingCoeff_eq_zero.mp zero
      rw [none, natDegree_zero] at some
      exact some rfl
    obtain ⟨one, room⟩ := order.resolve_left top
    have narrow := line one
    omega
  · intro flat k first last
    refine (getValue_iff fitted positive first last).mpr ?_
    by_cases high : (taylor t p).natDegree < k
    · exact .inl (coeff_eq_zero_of_natDegree_lt high)
    · right
      omega

/-- The window always holds the last samples; and the filter gives the derivatives of a polynomial of its degree, sampled at
    equal steps, when the polynomial is constant, or a line and not of the degree itself. -/
theorem smoothing_correct (exact : Inverts inverse) :
    (∀ samples, List.ofFn (run size inverse samples).windowData = recent (windowSizeFor size) samples) ∧
      (degree < windowSizeFor size → ∀ p : K[X], p.natDegree ≤ degree → ∀ t dt : K, 0 < dt → ∀ earlier,
        (Reproduces (run size inverse (earlier ++ samplesOf (windowSizeFor size) p t dt)) p t dt ↔
          p.natDegree = 0 ∨ p.natDegree = 1 ∧ 2 ≤ degree)) := by
  refine ⟨windowData_run, fun fits p low t dt positive earlier => ?_⟩
  exact reproduces_iff (values_samples exact fits low earlier) positive low

end

theorem inverts_inv {degree : ℕ} : Inverts fun A : Matrix (Fin (degree + 1)) (Fin (degree + 1)) K => A⁻¹ :=
  fun A nonzero => nonsing_inv_mul A (isUnit_iff_ne_zero.mpr nonzero)

theorem smoothing_correct_line :
    Reproduces (run 5 (fun A : Matrix (Fin 3) (Fin 3) ℚ => A⁻¹) ([4] ++ samplesOf (windowSizeFor 5) (X : ℚ[X]) 3 1)) X 3 1 :=
  ((smoothing_correct inverts_inv).2 (by decide) X (by rw [natDegree_X]; decide) 3 1 one_pos [4]).mpr
    (.inr ⟨natDegree_X, le_refl 2⟩)

/-- A filter with a window of five after samples of the square. -/
noncomputable def squared (degree : ℕ) : SGolaySmoothingFilter ℚ (windowSizeFor 5) degree :=
  run 5 (fun A => A⁻¹) (samplesOf (windowSizeFor 5) (X ^ 2) 0 1)

theorem squared_values {degree : ℕ} (room : 2 ≤ degree) (fits : degree < windowSizeFor 5) :
    (squared degree).values = List.ofFn (scaled degree (X ^ 2) 0 1) := by
  have low : (X ^ 2 : ℚ[X]).natDegree ≤ degree := by rwa [natDegree_X_pow]
  exact values_samples inverts_inv fits low []

/-- A fit of degree two gives no second derivative of the square, and a fit of degree three gives half of it. -/
theorem smoothing_wrong :
    ((squared 2).getValue 2 1 = some 0 ∧ ¬ Reproduces (squared 2) (X ^ 2) 0 1) ∧
    ((squared 3).getValue 2 1 = some 1 ∧ ¬ Reproduces (squared 3) (X ^ 2) 0 1) ∧ (derivative^[2] (X ^ 2 : ℚ[X])).eval 0 = 2 := by
  have square : (X ^ 2 : ℚ[X]).natDegree = 2 := natDegree_X_pow 2
  have derived : (derivative^[2] (X ^ 2 : ℚ[X])).eval 0 = 2 := by
    norm_num [derivative_X_pow]
  have half : (squared 3).getValue 2 1 = some 1 := by
    have value := getValue_below (squared_values (by decide) (by decide : 3 < windowSizeFor 5)) one_pos (k := 2) (by decide) (by decide)
    simpa [factorial, factorialLoop] using value
  refine ⟨⟨getValue_degree (by decide), ?_⟩, ⟨half, ?_⟩, derived⟩
  · rw [reproduces_iff (squared_values (by decide) (by decide)) one_pos square.le, square]
    decide
  · rw [reproduces_iff (squared_values (by decide) (by decide)) one_pos (by rw [square]; decide), square]
    decide

end Tortuga.SavitzkyGolay
