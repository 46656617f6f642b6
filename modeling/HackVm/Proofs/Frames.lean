import HackVm.Proofs.ControlBlocks

/-!
# Calls and returns fit together

* `foldl_pushed_get` : what is where after some words were put on the stack;
* `framed_get`, `framed_lcl`, `framed_arg` : the memory of a function that was just called;
* `unframed_get`, `unframed_sp` and their likes : the memory after it returned;
* `call_ret` : a call, the entry of the function and its return, with anything between the last two
  that keeps the frame and the words below the arguments.

Cells of the stack are given as natural numbers, so that `omega` tells them apart.
-/

namespace HackVm.StackMachine
open Machine (Word)
open Cell (sp lcl arg r13 r14)

/-! ## Cells -/

theorem ofNat_ne {a b : Nat} (ha : a < 65536) (hb : b < 65536) (h : a ≠ b) :
    BitVec.ofNat 16 a ≠ BitVec.ofNat 16 b := by
  intro he
  have := congrArg BitVec.toNat he
  rw [BitVec.toNat_ofNat, BitVec.toNat_ofNat, Nat.mod_eq_of_lt ha, Nat.mod_eq_of_lt hb] at this
  exact h this

theorem ofNat_sub_ofNat {a b : Nat} (h : b ≤ a) :
    BitVec.ofNat 16 a - BitVec.ofNat 16 b = BitVec.ofNat 16 (a - b) := by
  obtain ⟨d, rfl⟩ := Nat.exists_eq_add_of_le h
  rw [BitVec.ofNat_add, Nat.add_sub_cancel_left]
  ring

theorem aboveRegisters_ofNat {a : Nat} (h : 16 ≤ a) (ha : a < 65536) :
    AboveRegisters (BitVec.ofNat 16 a) := by
  unfold AboveRegisters
  rw [BitVec.toNat_ofNat, Nat.mod_eq_of_lt ha]
  exact h

/-! ## Words on the stack -/

theorem pushed_get {m : Memory} {a c : Nat} (w : Word) (hsp : m sp = BitVec.ofNat 16 a)
    (ha : a < 65536) (hc : 0 < c) (hc' : c < 65536) :
    pushed m w (BitVec.ofNat 16 c) = if c = a then w else m (BitVec.ofNat 16 c) := by
  have hne : BitVec.ofNat 16 c ≠ sp := ofNat_ne hc' (by omega) (by omega)
  rw [pushed, Function.update_of_ne hne, hsp]
  by_cases h : c = a
  · rw [if_pos h, h, Function.update_self]
  · rw [if_neg h, Function.update_of_ne (ofNat_ne hc' ha h)]

/-- The words of a list that was put on the stack, and the cells around them. -/
theorem foldl_pushed_get (ws : List Word) {m : Memory} {a c : Nat} (hsp : m sp = BitVec.ofNat 16 a)
    (ha : a + ws.length ≤ 65536) (hc : 0 < c) (hc' : c < 65536) :
    ws.foldl pushed m (BitVec.ofNat 16 c) =
      if a ≤ c then (ws[c - a]?).getD (m (BitVec.ofNat 16 c)) else m (BitVec.ofNat 16 c) := by
  induction ws generalizing m a with
  | nil =>
    rw [List.foldl_nil, List.getElem?_nil, Option.getD_none, ite_self]
  | cons w ws ih =>
    rw [List.length_cons] at ha
    have hnext : pushed m w sp = BitVec.ofNat 16 (a + 1) := by
      rw [pushed_sp, hsp, BitVec.ofNat_add]
    rw [List.foldl_cons, ih hnext (by omega), pushed_get w hsp (by omega) hc hc']
    by_cases hlt : c < a
    · rw [if_neg (by omega), if_neg (by omega), if_neg (by omega)]
    · by_cases heq : c = a
      · subst heq
        rw [if_neg (by omega), if_pos rfl, if_pos (Nat.le_refl c), Nat.sub_self, List.getElem?_cons_zero,
          Option.getD_some]
      · rw [if_pos (by omega), if_neg heq, if_pos (by omega),
          show c - a = c - (a + 1) + 1 by omega, List.getElem?_cons_succ]

theorem iterate_pushed (k : Nat) (w : Word) (m : Memory) :
    (pushed · w)^[k] m = (List.replicate k w).foldl pushed m := by
  induction k generalizing m with
  | zero => rfl
  | succ k ih => rw [Function.iterate_succ_apply, ih, List.replicate_succ, List.foldl_cons]

/-! ## The memory of a called function -/

section Framed
variable {m : Memory} {p n next : Nat}

def frameWords (m : Memory) (next : Nat) : List Word :=
  [BitVec.ofNat 16 next, m lcl, m arg, m Cell.this, m Cell.that]

theorem framed_sp (hsp : m sp = BitVec.ofNat 16 p) : framed m next n sp = BitVec.ofNat 16 (p + 5) := by
  unfold framed
  rw [Function.update_of_ne (by decide), Function.update_of_ne (by decide), foldl_pushed_sp, hsp,
    ← BitVec.ofNat_add]
  rfl

theorem framed_lcl (hsp : m sp = BitVec.ofNat 16 p) :
    framed m next n lcl = BitVec.ofNat 16 (p + 5) := by
  unfold framed
  rw [Function.update_self, foldl_pushed_sp, hsp, ← BitVec.ofNat_add]
  rfl

theorem framed_arg (hsp : m sp = BitVec.ofNat 16 p) (hn : n ≤ p) :
    framed m next n arg = BitVec.ofNat 16 (p - n) := by
  unfold framed
  rw [Function.update_of_ne (by decide), Function.update_self, hsp, BitVec.ofInt_natCast,
    ofNat_sub_ofNat hn]

theorem framed_get {c : Nat} (hsp : m sp = BitVec.ofNat 16 p) (hp : p + 5 ≤ 65536) (hc : 16 ≤ c)
    (hc' : c < 65536) :
    framed m next n (BitVec.ofNat 16 c) =
      if p ≤ c then ((frameWords m next)[c - p]?).getD (m (BitVec.ofNat 16 c))
      else m (BitVec.ofNat 16 c) := by
  have hlcl : BitVec.ofNat 16 c ≠ lcl := ofNat_ne hc' (by omega) (by omega)
  have harg : BitVec.ofNat 16 c ≠ arg := ofNat_ne hc' (by omega) (by omega)
  unfold framed
  rw [Function.update_of_ne hlcl, Function.update_of_ne harg]
  exact foldl_pushed_get (frameWords m next) hsp hp (by omega) hc'

end Framed

/-! ## The memory after a return -/

section Unframed
variable {m : Memory} {a l : Nat}

theorem unframed_sp (harg : m arg = BitVec.ofNat 16 a) :
    unframed m sp = BitVec.ofNat 16 (a + 1) := by
  unfold unframed
  rw [Function.update_of_ne (by decide), Function.update_of_ne (by decide),
    Function.update_of_ne (by decide), Function.update_of_ne (by decide), Function.update_self, harg,
    BitVec.ofNat_add]

/-- Above the registers, only the first argument changes. -/
theorem unframed_get {c : Nat} (harg : m arg = BitVec.ofNat 16 a) (ha : a < 65536) (hc : 16 ≤ c)
    (hc' : c < 65536) :
    unframed m (BitVec.ofNat 16 c) = if c = a then top m else m (BitVec.ofNat 16 c) := by
  have hreg : ∀ r : Word, r.toNat < 16 → BitVec.ofNat 16 c ≠ r :=
    fun r hr => (aboveRegisters_ofNat hc hc').ne hr
  unfold unframed
  rw [Function.update_of_ne (hreg lcl (by decide)), Function.update_of_ne (hreg arg (by decide)),
    Function.update_of_ne (hreg Cell.this (by decide)),
    Function.update_of_ne (hreg Cell.that (by decide)), Function.update_of_ne (hreg sp (by decide)), harg]
  by_cases h : c = a
  · rw [if_pos h, h, Function.update_self]
  · rw [if_neg h, Function.update_of_ne (ofNat_ne hc' ha h)]

/-- A saved register comes back from its word of the frame. The result does not overwrite it, since the
arguments start at the return address or below. -/
theorem unframed_saved (harg : m arg = BitVec.ofNat 16 a) (hlcl : m lcl = BitVec.ofNat 16 l)
    (ha : a + 5 ≤ l) (hl : l < 65536) (h16 : 16 ≤ a) :
    unframed m Cell.that = m (BitVec.ofNat 16 (l - 1)) ∧
      unframed m Cell.this = m (BitVec.ofNat 16 (l - 2)) ∧
      unframed m arg = m (BitVec.ofNat 16 (l - 3)) ∧
      unframed m lcl = m (BitVec.ofNat 16 (l - 4)) := by
  have hword : ∀ d, 0 < d → d < 5 →
      Function.update (Function.update m (m arg) (top m)) sp (m arg + 1#16) (m lcl - BitVec.ofNat 16 d) =
        m (BitVec.ofNat 16 (l - d)) := by
    intro d hd hd'
    rw [hlcl, ofNat_sub_ofNat (by omega), harg, Function.update_of_ne, Function.update_of_ne]
    · exact ofNat_ne (by omega) (by omega) (by omega)
    · exact ofNat_ne (by omega) (by omega) (by omega)
  refine ⟨?_, ?_, ?_, ?_⟩
  · rw [← hword 1 (by omega) (by omega)]
    rfl
  · rw [← hword 2 (by omega) (by omega)]
    rfl
  · rw [← hword 3 (by omega) (by omega)]
    rfl
  · rw [← hword 4 (by omega) (by omega)]
    rfl

end Unframed

end HackVm.StackMachine

namespace HackVm.Machine
open Instruction Block StackMachine
open Cell (sp lcl arg r13 r14)

/-! ## Calling and returning -/

/-- The state `t` of a function with `locals` locals that was called in `s` with `arguments`
arguments. -/
structure Entered (s : State) (arguments locals : Nat) (t : State) : Prop where
  arg : (t.ram arg).toNat = (s.ram sp).toNat - arguments
  lcl : (t.ram lcl).toNat = (s.ram sp).toNat + 5
  sp : (t.ram sp).toNat = (s.ram sp).toNat + 5 + locals
  zero : ∀ i < locals, t.ram (t.ram Cell.lcl + BitVec.ofNat 16 i) = 0#16

/-- From `t` to `u` a function may do anything but touch its frame or the words below its arguments,
and it ends with a word on its stack. -/
structure FrameKept (t u : State) : Prop where
  arg : u.ram arg = t.ram arg
  lcl : u.ram lcl = t.ram lcl
  frame : ∀ d, 1 ≤ d → d ≤ 5 →
    u.ram (t.ram Cell.lcl - BitVec.ofNat 16 d) = t.ram (t.ram Cell.lcl - BitVec.ofNat 16 d)
  stack : (t.ram Cell.lcl).toNat + 1 ≤ (u.ram sp).toNat ∧ (u.ram sp).toNat ≤ 32768
  below : ∀ c : Word, 16 ≤ c.toNat → c.toNat < (t.ram Cell.arg).toNat → u.ram c = t.ram c

/-- The state `v` after a function that was called in `s` with `arguments` arguments has returned
from `u`. -/
structure Returned (s : State) (arguments : Nat) (u v : State) : Prop where
  sp : (v.ram sp).toNat = (s.ram sp).toNat - arguments + 1
  top : top v.ram = top u.ram
  lcl : v.ram lcl = s.ram lcl
  arg : v.ram arg = s.ram arg
  this : v.ram Cell.this = s.ram Cell.this
  that : v.ram Cell.that = s.ram Cell.that
  below : ∀ c : Word, 16 ≤ c.toNat → c.toNat < (s.ram Cell.sp).toNat - arguments → v.ram c = s.ram c

/-- A call gets to its function with a frame on the stack. -/
theorem call_reaches {code b₁ a₁ b₂ a₂ : List Instruction} {f : String} {n k : Nat}
    {ordinal : Option Int} {s : State} {p : Nat} (hload : Loaded code) (hf : Symbolic f)
    (hcall : code = b₁ ++ call f n ordinal ++ a₁) (hfun : code = b₂ ++ function f k ++ a₂)
    (hpc : s.pc = codeSize b₁) (hsp : s.ram sp = BitVec.ofNat 16 p) (hlow : 16 ≤ p)
    (hhigh : p + 5 < 65536) :
    ∃ t, Reaches (Program.ofListing code) s t ∧ t.pc = codeSize b₂ ∧
      t.ram = framed s.ram (codeSize b₁ + codeSize (call f n ordinal)) n := by
  have hentry : code = b₂ ++ .label f :: ((List.replicate (k : Int).toNat pushZero).flatten ++ a₂) := by
    rw [hfun, function, List.append_assoc, List.cons_append]
  have hf' : labelAddress? f code = some (codeSize b₂) := hload.labelAddress? hentry
  have hr : ∀ w ∈ touched s.ram (.call f n), AboveRegisters w := by
    intro w hw
    obtain ⟨j, hj, rfl⟩ := List.mem_map.1 hw
    rw [List.mem_range] at hj
    rw [hsp, ← BitVec.ofNat_add]
    exact aboveRegisters_ofNat (by omega) (by omega)
  obtain ⟨v, hv, t, ht, hpc', hm⟩ := call_carriesOut (x := ⟨"", none,
    codeSize b₁ + codeSize (call f n ordinal)⟩) hload hf hcall hpc (by rw [hpc]) hr hf'
  simp only [StackMachine.step?, Layout.ofListing, hf', Option.map_some] at hv
  cases hv
  exact ⟨t, ht, hpc', funext fun c => hm c (by simp [scratch])⟩

theorem function_reaches {code b₂ a₂ : List Instruction} {f : String} {k q : Nat} {s : State}
    (hfun : code = b₂ ++ function f k ++ a₂) (hpc : s.pc = codeSize b₂)
    (hsp : s.ram sp = BitVec.ofNat 16 q) (hlow : 16 ≤ q) (hhigh : q + k < 65536) :
    ∃ t, Reaches (Program.ofListing code) s t ∧ t.pc = codeSize b₂ + codeSize (function f k) ∧
      t.ram = (List.replicate k 0#16).foldl pushed s.ram := by
  have hp : Placed (Program.ofListing code) s.pc (function f k) := by
    rw [hfun, hpc]
    exact Placed.ofListing ..
  have hr : ∀ w ∈ touched s.ram (.function f k), AboveRegisters w := by
    intro w hw
    obtain ⟨j, hj, rfl⟩ := List.mem_map.1 hw
    rw [List.mem_range, Int.toNat_natCast] at hj
    rw [hsp, ← BitVec.ofNat_add]
    exact aboveRegisters_ofNat (by omega) (by omega)
  obtain ⟨v, hv, t, ht, hpc', hm⟩ := function_carriesOut (x := ⟨"", none,
    codeSize b₂ + codeSize (function f k)⟩) hp (by rw [hpc]) hr
  cases hv
  refine ⟨t, ht, hpc', ?_⟩
  rw [← iterate_pushed]
  exact funext fun c => hm c (by simp [scratch])

theorem ret_reaches {code b₃ a₃ : List Instruction} {a l q : Nat} {s : State}
    (hret : code = b₃ ++ ret ++ a₃) (hpc : s.pc = codeSize b₃) (harg : s.ram arg = BitVec.ofNat 16 a)
    (hlcl : s.ram lcl = BitVec.ofNat 16 l) (hsp : s.ram sp = BitVec.ofNat 16 q) (ha : 16 ≤ a)
    (hl : a + 5 ≤ l) (hq : l + 1 ≤ q) (hhigh : q < 65536) :
    ∃ t, Reaches (Program.ofListing code) s t ∧ t.pc = (s.ram (BitVec.ofNat 16 (l - 5))).toNat ∧
      ∀ c ∉ [r13, r14], t.ram c = unframed s.ram c := by
  have hp : Placed (Program.ofListing code) s.pc ret := by
    rw [hret, hpc]
    exact Placed.ofListing ..
  have hr : ∀ w ∈ touched s.ram .ret, AboveRegisters w := by
    have hframe : ∀ d ≤ 5, AboveRegisters (s.ram lcl - BitVec.ofNat 16 d) := by
      intro d hd
      rw [hlcl, ofNat_sub_ofNat (by omega)]
      exact aboveRegisters_ofNat (by omega) (by omega)
    have htop : AboveRegisters (s.ram sp - 1#16) := by
      rw [hsp, ofNat_sub_ofNat (by omega)]
      exact aboveRegisters_ofNat (by omega) (by omega)
    have hnew : AboveRegisters (s.ram arg + 1#16) := by
      rw [harg, ← BitVec.ofNat_add]
      exact aboveRegisters_ofNat (by omega) (by omega)
    intro w hw
    simp only [touched, List.mem_cons, List.not_mem_nil, or_false] at hw
    rcases hw with rfl | rfl | rfl | rfl | rfl | rfl | rfl | rfl | rfl
    · rw [hsp]
      exact aboveRegisters_ofNat (by omega) hhigh
    · exact htop
    · rw [harg]
      exact aboveRegisters_ofNat ha (by omega)
    · exact hnew
    · exact hframe 1 (by omega)
    · exact hframe 2 (by omega)
    · exact hframe 3 (by omega)
    · exact hframe 4 (by omega)
    · exact hframe 5 (by omega)
  obtain ⟨v, hv, t, ht, hpc', hm⟩ := ret_carriesOut (x := ⟨"", none, 0⟩) hp hr
  cases hv
  refine ⟨t, ht, ?_, hm⟩
  rw [hpc', ← ofNat_sub_ofNat (by omega), ← hlcl]

/-- The memory of a function after its entry. -/
theorem entered_get {m : Memory} {p n k next c : Nat} (hsp : m sp = BitVec.ofNat 16 p)
    (hhigh : p + 5 + k ≤ 32768) (hc : 0 < c) (hc' : c < p + 5) :
    (List.replicate k 0#16).foldl pushed (framed m next n) (BitVec.ofNat 16 c) =
      framed m next n (BitVec.ofNat 16 c) := by
  rw [foldl_pushed_get _ (framed_sp hsp) (by rw [List.length_replicate]; omega) hc (by omega),
    if_neg (by omega)]

theorem entered_of_framed {s t : State} {p n k next : Nat} (hsp : s.ram sp = BitVec.ofNat 16 p)
    (hlow : 16 + n ≤ p) (hhigh : p + 5 + k ≤ 32768)
    (hm : t.ram = (List.replicate k 0#16).foldl pushed (framed s.ram next n)) : Entered s n k t := by
  have hp : (s.ram sp).toNat = p := by rw [hsp, BitVec.toNat_ofNat, Nat.mod_eq_of_lt (by omega)]
  have harg : t.ram arg = BitVec.ofNat 16 (p - n) := by
    rw [hm, ← framed_arg hsp (by omega)]
    exact entered_get hsp hhigh (by omega) (by omega)
  have hlcl : t.ram lcl = BitVec.ofNat 16 (p + 5) := by
    rw [hm, ← framed_lcl hsp]
    exact entered_get hsp hhigh (by omega) (by omega)
  refine ⟨?_, ?_, ?_, ?_⟩
  · rw [harg, hp, BitVec.toNat_ofNat, Nat.mod_eq_of_lt (by omega)]
  · rw [hlcl, hp, BitVec.toNat_ofNat, Nat.mod_eq_of_lt (by omega)]
  · rw [hm, foldl_pushed_sp, framed_sp hsp, ← BitVec.ofNat_add, List.length_replicate, hp,
      BitVec.toNat_ofNat, Nat.mod_eq_of_lt (by omega)]
  · intro i hi
    rw [hlcl, ← BitVec.ofNat_add, hm, foldl_pushed_get _ (framed_sp hsp)
      (by rw [List.length_replicate]; omega) (by omega) (by omega), if_pos (by omega),
      Nat.add_sub_cancel_left, List.getElem?_replicate, if_pos hi, Option.getD_some]

section Kept
variable {s t u : State} {p n k next : Nat} (hsp : s.ram sp = BitVec.ofNat 16 p) (hlow : 16 + n ≤ p)
  (hhigh : p + 5 + k ≤ 32768)
  (hm : t.ram = (List.replicate k 0#16).foldl pushed (framed s.ram next n)) (h : FrameKept t u)
include hsp hhigh hm h

theorem kept_lcl : u.ram lcl = BitVec.ofNat 16 (p + 5) := by
  rw [h.lcl, hm, ← framed_lcl hsp]
  exact entered_get hsp hhigh (by omega) (by omega)

include hlow

theorem kept_arg : u.ram arg = BitVec.ofNat 16 (p - n) := by
  rw [h.arg, hm, ← framed_arg hsp (by omega)]
  exact entered_get hsp hhigh (by omega) (by omega)

/-- A function that kept its frame finds the words of the frame in it. -/
theorem kept_frame {j : Nat} (hj : j < 5) :
    some (u.ram (BitVec.ofNat 16 (p + j))) = (frameWords s.ram next)[j]? := by
  have hframe := h.frame (5 - j) (by omega) (by omega)
  rw [← h.lcl, kept_lcl hsp hhigh hm h, ofNat_sub_ofNat (by omega),
    show p + 5 - (5 - j) = p + j by omega] at hframe
  have hsome : j < (frameWords s.ram next).length := hj
  rw [hframe, hm, entered_get hsp hhigh (by omega) (by omega),
    framed_get hsp (by omega) (by omega) (by omega), if_pos (by omega), Nat.add_sub_cancel_left,
    List.getElem?_eq_getElem hsome, Option.getD_some]

theorem kept_below {c : Nat} (hc : 16 ≤ c) (hc' : c < p - n) :
    u.ram (BitVec.ofNat 16 c) = s.ram (BitVec.ofNat 16 c) := by
  have hnat : (BitVec.ofNat 16 c).toNat = c := by
    rw [BitVec.toNat_ofNat, Nat.mod_eq_of_lt (by omega)]
  have harg : (t.ram arg).toNat = p - n := by
    rw [← h.arg, kept_arg hsp hlow hhigh hm h, BitVec.toNat_ofNat, Nat.mod_eq_of_lt (by omega)]
  rw [h.below _ (by omega) (by omega), hm, entered_get hsp hhigh (by omega) (by omega),
    framed_get hsp (by omega) hc (by omega), if_neg (by omega)]

theorem returned_of_kept {v : State} (hv : ∀ c ∉ [r13, r14], v.ram c = unframed u.ram c) :
    Returned s n u v := by
  have hp : (s.ram sp).toNat = p := by rw [hsp, BitVec.toNat_ofNat, Nat.mod_eq_of_lt (by omega)]
  have harg := kept_arg hsp hlow hhigh hm h
  have hlcl := kept_lcl hsp hhigh hm h
  have hget : ∀ c, 16 ≤ c → c < 65536 →
      v.ram (BitVec.ofNat 16 c) = unframed u.ram (BitVec.ofNat 16 c) := by
    intro c hc hc'
    have habove := aboveRegisters_ofNat hc hc'
    refine hv _ ?_
    simp [habove.ne (show r13.toNat < 16 by decide), habove.ne (show r14.toNat < 16 by decide)]
  have hvsp : v.ram sp = BitVec.ofNat 16 (p - n + 1) := by
    rw [hv sp (by decide), unframed_sp harg]
  obtain ⟨hthat, hthis, harg', hlcl'⟩ := unframed_saved harg hlcl (by omega) (by omega) (by omega)
  have hword : ∀ j, j < 5 → some (u.ram (BitVec.ofNat 16 (p + j))) = (frameWords s.ram next)[j]? :=
    fun j hj => kept_frame hsp hlow hhigh hm h hj
  refine ⟨?_, ?_, ?_, ?_, ?_, ?_, ?_⟩
  · rw [hvsp, hp, BitVec.toNat_ofNat, Nat.mod_eq_of_lt (by omega)]
  · rw [top, hvsp, ofNat_sub_ofNat (by omega), Nat.add_sub_cancel, hget _ (by omega) (by omega),
      unframed_get harg (by omega) (by omega) (by omega), if_pos rfl]
  · rw [hv lcl (by decide), hlcl']
    exact Option.some.inj (hword 1 (by omega))
  · rw [hv arg (by decide), harg']
    exact Option.some.inj (hword 2 (by omega))
  · rw [hv Cell.this (by decide), hthis]
    exact Option.some.inj (hword 3 (by omega))
  · rw [hv Cell.that (by decide), hthat]
    exact Option.some.inj (hword 4 (by omega))
  · intro c hc hc'
    obtain ⟨d, hd⟩ : ∃ d, d = c.toNat := ⟨_, rfl⟩
    obtain rfl : c = BitVec.ofNat 16 d := by rw [hd, BitVec.ofNat_toNat, BitVec.setWidth_eq]
    rw [hp, ← hd] at hc'
    rw [← hd] at hc
    rw [hget d hc (by omega), unframed_get harg (by omega) hc (by omega), if_neg (by omega)]
    exact kept_below hsp hlow hhigh hm h hc hc'

end Kept

/-- A call followed by the entry of its function, and a return of the function after it has done
anything that keeps its frame and the words below its arguments. -/
theorem call_ret {code b₁ a₁ b₂ a₂ b₃ a₃ : List Instruction} {f : String} {n k : Nat}
    {ordinal : Option Int} {s : State} (hload : Loaded code) (hf : Symbolic f)
    (hcall : code = b₁ ++ call f n ordinal ++ a₁) (hfun : code = b₂ ++ function f k ++ a₂)
    (hret : code = b₃ ++ ret ++ a₃) (hpc : s.pc = codeSize b₁) (hlow : 16 + n ≤ (s.ram sp).toNat)
    (hhigh : (s.ram sp).toNat + 5 + k ≤ 32768) :
    ∃ t, Reaches (Program.ofListing code) s t ∧ t.pc = codeSize b₂ + codeSize (function f k) ∧
      Entered s n k t ∧
      ∀ u, u.pc = codeSize b₃ → FrameKept t u →
        ∃ v, Reaches (Program.ofListing code) u v ∧
          labelAddress? (Naming.returnTo f ordinal) code = some v.pc ∧ Returned s n u v := by
  have hcell : ∀ w : Word, w = BitVec.ofNat 16 w.toNat := by
    intro w
    rw [BitVec.ofNat_toNat, BitVec.setWidth_eq]
  obtain ⟨p, hp⟩ : ∃ p, p = (s.ram sp).toNat := ⟨_, rfl⟩
  have hsp : s.ram sp = BitVec.ofNat 16 p := by rw [hp]; exact hcell _
  rw [← hp] at hlow hhigh
  obtain ⟨t₁, hr₁, hpc₁, hm₁⟩ := call_reaches hload hf hcall hfun hpc hsp (by omega) (by omega)
  have hsp₁ : t₁.ram sp = BitVec.ofNat 16 (p + 5) := by rw [hm₁]; exact framed_sp hsp
  obtain ⟨t, hr₂, hpc₂, hm₂⟩ := function_reaches hfun hpc₁ hsp₁ (by omega) (by omega)
  rw [hm₁] at hm₂
  have hentered := entered_of_framed hsp hlow hhigh hm₂
  refine ⟨t, hr₁.trans hr₂, hpc₂, hentered, fun u hu hkept => ?_⟩
  obtain ⟨hstack, hstack'⟩ := hkept.stack
  rw [hentered.lcl, ← hp] at hstack
  obtain ⟨v, hr₃, hpc₃, hv⟩ := ret_reaches hret hu (kept_arg hsp hlow hhigh hm₂ hkept)
    (kept_lcl hsp hhigh hm₂ hkept) (hcell _) (by omega) (by omega) hstack (by omega)
  refine ⟨v, hr₃, ?_, returned_of_kept hsp hlow hhigh hm₂ hkept hv⟩
  -- The return address that the call saved is a word, since program memory is no larger.
  have haddress := labelAddress?_returnTo hload hcall
  have hle := (labelAddress?_le haddress).trans hload.size_le
  have hback : u.ram (BitVec.ofNat 16 p) = _ :=
    Option.some.inj (kept_frame hsp hlow hhigh hm₂ hkept (j := 0) (by omega))
  rw [haddress, hpc₃, Nat.add_sub_cancel, hback, BitVec.toNat_ofNat, Nat.mod_eq_of_lt (by omega)]

/-- A function of one argument that returns its only local. -/
theorem call_ret_local :
    ∃ t v, Reaches (Program.ofListing (call "Main.f" 1 (some 0) ++ function "Main.f" 1 ++ ret))
        ⟨0, 0, 0, fun _ => 256#16⟩ t ∧
      Entered ⟨0, 0, 0, fun _ => 256#16⟩ 1 1 t ∧
      Reaches (Program.ofListing (call "Main.f" 1 (some 0) ++ function "Main.f" 1 ++ ret)) t v ∧
      v.pc = 47 ∧ Returned ⟨0, 0, 0, fun _ => 256#16⟩ 1 t v := by
  have hload : Loaded (call "Main.f" 1 (some 0) ++ function "Main.f" 1 ++ ret) :=
    ⟨by decide, by decide⟩
  have hcall : call "Main.f" 1 (some 0) ++ function "Main.f" 1 ++ ret =
      [] ++ call "Main.f" 1 (some 0) ++ (function "Main.f" 1 ++ ret) := List.append_assoc ..
  obtain ⟨t, hr, hpc, hentered, hback⟩ := call_ret (n := 1) (k := 1)
    (s := ⟨0, 0, 0, fun _ => 256#16⟩) hload (symbolic_of_mem (c := '.') (by decide) (by decide))
    hcall rfl (List.append_nil _).symm rfl (by decide) (by decide)
  have hkept : FrameKept t t := by
    refine ⟨rfl, rfl, fun _ _ _ => rfl, ?_, fun _ _ _ => rfl⟩
    rw [hentered.lcl, hentered.sp]
    decide
  obtain ⟨v, hr', haddress, hreturned⟩ := hback t hpc hkept
  refine ⟨t, v, hr, hentered, hr', Option.some.inj (haddress.symm.trans ?_), hreturned⟩
  decide

end HackVm.Machine
