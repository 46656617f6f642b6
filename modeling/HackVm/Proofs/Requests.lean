import HackVm.CommandLine.Arguments
import HackVm.Proofs.Numerals
import HackVm.Proofs.Outcome

/-!
# The numbers in a request

An integer that is written in an argument has at most as many digits as one that may be written in a
listing.

* `Text.fits_readInteger` : what is read as an integer fits;
* `CommandLine.fitting_of_parse` : so does the start of the stack that the arguments ask for.
-/

namespace HackVm

/-! ## Integers -/

namespace Text

theorem digit?_lt {c : Char} {n : Nat} (h : digit? c = some n) : n < 10 := by
  obtain ⟨z, hz, rfl⟩ := Option.map_eq_some_iff.1 h
  have hrange := List.find?_some hz
  rw [Bool.and_eq_true, decide_eq_true_eq, decide_eq_true_eq] at hrange
  omega

theorem moreDigits?_lt {cs : List Char} {ds : List Nat} (h : moreDigits? cs = some ds) : ∀ d ∈ ds, d < 10 := by
  fun_induction moreDigits? cs generalizing ds with
  | case1 =>
    cases h
    exact fun _ hd => nomatch hd
  | case2 c cs ih =>
    obtain ⟨d, hd, h⟩ := Option.bind_eq_some_iff.1 h
    obtain ⟨ds, hds, h⟩ := Option.bind_eq_some_iff.1 h
    cases h
    exact List.forall_mem_cons.2 ⟨digit?_lt hd, ih hds⟩
  | case3 c cs _ ih =>
    obtain ⟨d, hd, h⟩ := Option.bind_eq_some_iff.1 h
    obtain ⟨ds, hds, h⟩ := Option.bind_eq_some_iff.1 h
    cases h
    exact List.forall_mem_cons.2 ⟨digit?_lt hd, ih hds⟩

theorem digits?_lt {cs : List Char} {ds : List Nat} (h : digits? cs = some ds) : ∀ d ∈ ds, d < 10 := by
  cases cs with
  | nil => cases h
  | cons c cs =>
    obtain ⟨d, hd, h⟩ := Option.bind_eq_some_iff.1 h
    obtain ⟨ds, hds, h⟩ := Option.bind_eq_some_iff.1 h
    cases h
    exact List.forall_mem_cons.2 ⟨digit?_lt hd, moreDigits?_lt hds⟩

theorem foldl_digits_lt {ds : List Nat} (h : ∀ d ∈ ds, d < 10) (m : Nat) :
    ds.foldl (fun n d => 10 * n + d) m < (m + 1) * 10 ^ ds.length := by
  induction ds generalizing m with
  | nil => simp
  | cons d ds ih =>
    rw [List.forall_mem_cons] at h
    calc ds.foldl (fun n d => 10 * n + d) (10 * m + d)
        < (10 * m + d + 1) * 10 ^ ds.length := ih h.2 _
      _ ≤ ((m + 1) * 10) * 10 ^ ds.length := Nat.mul_le_mul_right _ (by omega)
      _ = (m + 1) * 10 ^ (ds.length + 1) := by rw [Nat.mul_assoc, Nat.pow_succ, Nat.mul_comm 10]

theorem fits_natural {cs : List Char} {n : Nat} (h : natural? cs = some n) : Numeral.Fits n := by
  obtain ⟨ds, hds, h⟩ := Option.bind_eq_some_iff.1 h
  split at h
  · cases h
  · next hlength =>
    cases h
    have hvalue := foldl_digits_lt (digits?_lt hds) 0
    rw [Nat.zero_add, Nat.one_mul] at hvalue
    rw [Numeral.fits_natCast]
    exact Nat.lt_of_lt_of_le hvalue (Nat.pow_le_pow_right (by omega) (by omega))

theorem fits_readInteger {s : String} {n : Int} (h : readInteger? s = some n) : Numeral.Fits n := by
  have hcast : ∀ {cs : List Char} {m : Int}, (natural? cs >>= fun k => pure (k : Int)) = some m →
      Numeral.Fits m := by
    intro cs m hm
    obtain ⟨k, hk, hcast⟩ := Option.bind_eq_some_iff.1 hm
    cases hcast
    exact fits_natural hk
  unfold readInteger? at h
  split at h
  · obtain ⟨m, hm, rfl⟩ := Option.map_eq_some_iff.1 h
    unfold Numeral.Fits
    rw [Int.natAbs_neg]
    exact hcast hm
  · obtain ⟨m, hm, rfl⟩ := Option.map_eq_some_iff.1 h
    exact hcast hm
  · obtain ⟨m, hm, rfl⟩ := Option.map_eq_some_iff.1 h
    exact hcast hm

end Text

/-! ## Requests -/

namespace CommandLine

/-- A number at which the stack is to start can be written. -/
def Request.Fitting (r : Request) : Prop := ∀ n, r.options.stackBase = .number n → Numeral.Fits n

theorem fits_integer {f : Flag} {v : String} {n : Int} (h : integer f v = .ok n) : Numeral.Fits n := by
  unfold integer at h
  split at h
  · next hn =>
    cases h
    exact Text.fits_readInteger hn
  · cases h

namespace Request

theorem Fitting.default : ({} : Request).Fitting := by
  intro n hn
  cases hn
  decide +kernel

theorem Fitting.setEmpty {r : Request} (h : r.Fitting) (f : Flag) : (r.setEmpty f).Fitting := by
  cases f with
  | stackBase => exact fun n hn => nomatch hn
  | _ => exact h

theorem Fitting.setValue {r r' : Request} (h : r.Fitting) {f : Flag} {v : String}
    (hset : r.setValue f v = .ok (some r')) : r'.Fitting := by
  cases f with
  | help => cases hset
  | stackBase =>
    obtain ⟨n, hn, hsome⟩ := map_eq_ok.1 hset
    cases hsome
    intro m hm
    cases hm
    exact fits_integer hn
  | block =>
    obtain ⟨n, -, hsome⟩ := map_eq_ok.1 hset
    cases hsome
    exact h
  | _ =>
    cases hset
    exact h

theorem Fitting.set {r r' : Request} (h : r.Fitting) {f : Flag} {v : Option String}
    (hset : r.set f v = .ok (some r')) : r'.Fitting := by
  unfold Request.set at hset
  split at hset
  · cases hset
    exact h.setEmpty f
  · exact h.setValue hset

theorem Fitting.setAll {r r' : Request} (h : r.Fitting) {flags : List (Flag × Option String)}
    (hset : r.setAll flags = .ok (some r')) : r'.Fitting := by
  fun_induction Request.setAll r flags with
  | case1 r =>
    cases hset
    exact h
  | case2 r f v fs r' hfirst ih => exact ih (h.set hfirst) hset
  | case3 r f v fs hfirst => exact absurd hset (hfirst r')

end Request

theorem fitting_of_conclude {r r' : Request} {extras : List String} {input : String} (h : r.Fitting)
    (hconclude : conclude r extras = .proceed input r') : r'.Fitting := by
  unfold conclude at hconclude
  split at hconclude
  · cases hconclude
  · split at hconclude
    · cases hconclude
      exact h
    · cases hconclude

theorem fitting_of_parseFrom {r r' : Request} {extras : List String} {rest : List (String × Role)}
    {input : String} (h : r.Fitting) (hparse : parseFrom r extras rest = .proceed input r') : r'.Fitting := by
  fun_induction parseFrom r extras rest with
  | case1 => exact fitting_of_conclude h hparse
  | case7 => exact fitting_of_conclude h hparse
  -- A plain argument, a marker or an unknown option sets no number.
  | case2 _ _ _ _ _ ih => exact ih h hparse
  | case3 _ _ _ _ _ _ ih => exact ih h hparse
  | case4 _ _ _ _ _ _ ih => exact ih h hparse
  | case5 _ _ _ _ _ ih => exact ih h hparse
  | case6 _ _ _ _ _ _ _ ih => exact ih h hparse
  | case8 _ _ _ _ ih => exact ih h hparse
  | case12 _ _ _ _ _ _ _ _ _ _ hset ih => exact ih (h.setAll hset) hparse
  | case15 _ _ _ _ _ _ _ _ _ _ _ _ hset ih => exact ih (h.setAll hset) hparse
  | _ => cases hparse

theorem fitting_of_parse {arguments : List String} {input : String} {r : Request}
    (h : parse arguments = .proceed input r) : r.Fitting := by
  unfold parse at h
  split at h
  · cases h
  · exact fitting_of_parseFrom .default h

end CommandLine

end HackVm
