import Mathlib.Data.List.Count
import Mathlib.Data.Fin.Basic
import Mathlib.Tactic.Ring

set_option relaxedAutoImplicit false
set_option autoImplicit false

/-!
# Round robin

A cursor moves around a cycle of `n` clients. Each service goes to a client and puts the cursor just
behind it; a client is *watched* if no service skips it, that is, if every service goes to a client
that the cursor meets no later. Which of the other clients may be served can change from one service
to the next.

## Main definitions

* `RoundRobin.distance` — how far ahead of the cursor a client is.
* `RoundRobin.Services` — a sequence of services that skips no watched client.

## Main results

* `RoundRobin.Services.mem` — within `n` services every watched client is served.
* `RoundRobin.Services.count_le` — two watched clients are served equally often, up to one service.
-/

namespace RoundRobin

variable {n : ℕ}

/-- The number of clients the cursor passes before it meets `i`. -/
def distance (next : ℕ) (i : Fin n) : ℕ :=
  if next % n ≤ i then i - next % n else i + n - next % n

/-- The distance is less than the length of the cycle. -/
theorem distance_lt (next : ℕ) (i : Fin n) : distance next i < n := by
  have hi := i.isLt
  have hnext := Nat.mod_lt next i.pos
  unfold distance
  split_ifs <;> omega

/-- Two clients at the same distance are the same. -/
theorem distance_injective (next : ℕ) : Function.Injective (distance next : Fin n → ℕ) := by
  intro i j h
  have hi := i.isLt
  have hj := j.isLt
  have hnext := Nat.mod_lt next i.pos
  unfold distance at h
  refine Fin.ext ?_
  split_ifs at h <;> omega

/-- The client met after passing `off` others. -/
theorem distance_mk (next : ℕ) (off : Fin n) :
    distance next (⟨(next + off) % n, Nat.mod_lt _ off.pos⟩ : Fin n) = off := by
  have hoff := off.isLt
  have hnext := Nat.mod_lt next off.pos
  have hmod : (next + off) % n =
      if next % n + off < n then next % n + off else next % n + off - n := by
    rw [Nat.add_mod, Nat.mod_eq_of_lt hoff]
    split_ifs with h
    · exact Nat.mod_eq_of_lt h
    · rw [Nat.mod_eq_sub_mod (not_lt.mp h)]
      exact Nat.mod_eq_of_lt (by omega)
  unfold distance
  simp only [hmod]
  split_ifs <;> omega

/-- The cursor behind the client just served. -/
theorem mod_succ (c : Fin n) : (c.val + 1) % n % n = if c.val + 1 = n then 0 else c.val + 1 := by
  have hc := c.isLt
  rw [Nat.mod_mod]
  split_ifs with h
  · rw [h, Nat.mod_self]
  · exact Nat.mod_eq_of_lt (by omega)

/-- The client just served is the farthest. -/
theorem distance_self (c : Fin n) : distance ((c.val + 1) % n) c = n - 1 := by
  have hc := c.isLt
  unfold distance
  rw [mod_succ]
  split_ifs <;> omega

/-- A client that the cursor has not met comes nearer. -/
theorem distance_of_lt {next : ℕ} {c i : Fin n} (h : distance next c < distance next i) :
    distance ((c.val + 1) % n) i + (distance next c + 1) = distance next i := by
  have hc := c.isLt
  have hi := i.isLt
  have hnext := Nat.mod_lt next c.pos
  unfold distance at h ⊢
  rw [mod_succ]
  split_ifs at h ⊢ <;> omega

/-- The sequences of services, with the cursor before and after, that skip no client of `W`. -/
inductive Services (W : Fin n → Prop) (next : ℕ) : List (Fin n) → ℕ → Prop
  | nil : Services W next [] next
  | snoc {l : List (Fin n)} {k : ℕ} {c : Fin n} (hl : Services W next l k)
      (hc : ∀ i, W i → distance k c ≤ distance k i) : Services W next (l ++ [c]) ((c.val + 1) % n)

namespace Services

variable {W : Fin n → Prop} {next k : ℕ} {l : List (Fin n)}

/-- A watched client that is not served comes nearer with every service. -/
theorem distance_add_length_le (h : Services W next l k) {i : Fin n} (hi : W i) (hil : i ∉ l) :
    distance k i + l.length ≤ distance next i := by
  induction h with
  | nil => exact le_rfl
  | @snoc l k c _ hc ih =>
    rw [List.mem_append, List.mem_singleton, not_or] at hil
    have hlt : distance k c < distance k i :=
      lt_of_le_of_ne (hc i hi) fun heq => hil.2 (distance_injective k heq).symm
    have hstep := distance_of_lt hlt
    have := ih hil.1
    rw [List.length_append, List.length_singleton]
    omega

/-- **No starvation.** Among `n` services that skip no watched client, every watched client is served.

**Proof sketch.** A watched client that is not served is at a distance below `n` and comes nearer with
every service. -/
theorem mem (h : Services W next l k) {i : Fin n} (hi : W i) (hlen : n ≤ l.length) : i ∈ l := by
  by_contra hil
  have hle := h.distance_add_length_le hi hil
  have hlt := distance_lt next i
  omega

/-- Which of two clients the cursor meets first: `1` if it meets `i` after `j`. -/
def behind (k : ℕ) (i j : Fin n) : ℕ := if distance k i < distance k j then 0 else 1

/-- The order of two watched clients keeps the account of their services.

**Proof sketch.** A service of another client moves the cursor nearer to both by the same amount. A
service of one of them, the first that the cursor meets, puts it behind the other. -/
theorem count_add_behind (h : Services W next l k) {i j : Fin n} (hi : W i) (hj : W j)
    (hij : i ≠ j) : l.count i + behind next i j = l.count j + behind k i j := by
  induction h with
  | nil => simp
  | @snoc l k c _ hc ih =>
    have hci := hc i hi
    have hcj := hc j hj
    have hdi := distance_lt k i
    have hdj := distance_lt k j
    have hne : distance k i ≠ distance k j := fun heq => hij (distance_injective k heq)
    have hself := distance_self c
    have hserved : [c].count c = 1 := List.count_singleton_self
    have hother : ∀ x, c ≠ x → [c].count x = 0 := fun x hx =>
      List.count_eq_zero.mpr fun hx' => hx (List.mem_singleton.mp hx').symm
    rw [List.count_append, List.count_append]
    by_cases hcI : c = i
    · -- `i` is served: it was ahead of `j`, and is behind it now
      subst hcI
      have hlt : distance k c < distance k j := lt_of_le_of_ne hcj hne
      have hstep := distance_of_lt hlt
      have hbefore : behind k c j = 0 := if_pos hlt
      have hafter : behind ((c.val + 1) % n) c j = 1 := if_neg (by omega)
      rw [hserved, hother j hij, hafter]
      omega
    · have hlti : distance k c < distance k i :=
        lt_of_le_of_ne hci fun heq => hcI (distance_injective k heq)
      have hstepi := distance_of_lt hlti
      by_cases hcJ : c = j
      · -- `j` is served: it was ahead of `i`, and is behind it now
        subst hcJ
        have hbefore : behind k i c = 1 := if_neg (not_lt.mpr hlti.le)
        have hafter : behind ((c.val + 1) % n) i c = 0 := if_pos (by omega)
        rw [hserved, hother i hcI, hafter]
        omega
      · -- another client is served: the order of `i` and `j` stays
        have hltj : distance k c < distance k j :=
          lt_of_le_of_ne hcj fun heq => hcJ (distance_injective k heq)
        have hstepj := distance_of_lt hltj
        have hbehind : behind ((c.val + 1) % n) i j = behind k i j := by
          unfold behind
          congr 1
          exact propext ⟨fun _ => by omega, fun _ => by omega⟩
        rw [hother i hcI, hother j hcJ, hbehind]
        exact ih

/-- **Equal service.** Two watched clients are served equally often, up to one service. -/
theorem count_le (h : Services W next l k) {i j : Fin n} (hi : W i) (hj : W j) :
    l.count i ≤ l.count j + 1 := by
  by_cases hij : i = j
  · subst hij
    exact Nat.le_succ _
  · have hbal := h.count_add_behind hi hj hij
    have hle : behind k i j ≤ 1 := by
      unfold behind
      split_ifs <;> omega
    omega

end Services

end RoundRobin
