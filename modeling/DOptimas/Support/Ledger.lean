import DOptimas.Support.System
import Mathlib.Algebra.BigOperators.Group.Finset.Basic
import Mathlib.Data.Fintype.Basic
import Mathlib.Tactic.Abel
/-!
# Ledgers of an actor system

A ledger values the states of some actors and the messages in flight in a
commutative monoid.  Its total changes with a step exactly by what the acting
actor's own balance, the message it consumed and the messages it posted are
worth, so an invariant about the total is a fact about single handlers.
-/

namespace DOptimas.Support

variable {ε A μ Ω M : Type} {B : Behaviour ε A μ Ω}

structure Ledger (B : Behaviour ε A μ Ω) (M : Type) where
  accounts : Finset A
  balance : (a : A) → B.State a → M
  load : Packet A μ → M

namespace Ledger

variable [AddCommMonoid M] [DecidableEq A] (L : Ledger B M)

def inFlight (net : List (Packet A μ)) : M := (net.map L.load).sum

/-- What the state `s` of actor `a` contributes to the total. -/
def worth (a : A) (s : B.State a) : M := if a ∈ L.accounts then L.balance a s else 0

def total (c : Config B) : M := ∑ a ∈ L.accounts, L.balance a (c.state a) + L.inFlight c.net

omit [DecidableEq A] in
@[simp] theorem inFlight_nil : L.inFlight [] = 0 := rfl

omit [DecidableEq A] in
@[simp] theorem inFlight_cons (p : Packet A μ) (net : List (Packet A μ)) :
    L.inFlight (p :: net) = L.load p + L.inFlight net := by
  simp [inFlight]

omit [DecidableEq A] in
@[simp] theorem inFlight_append (net out : List (Packet A μ)) :
    L.inFlight (net ++ out) = L.inFlight net + L.inFlight out := by
  simp [inFlight]

omit [DecidableEq A] in
theorem inFlight_perm {net net' : List (Packet A μ)} (h : net.Perm net') :
    L.inFlight net = L.inFlight net' :=
  (h.map L.load).sum_eq

omit [DecidableEq A] in
theorem inFlight_eq_zero {net : List (Packet A μ)} (h : ∀ p ∈ net, L.load p = 0) :
    L.inFlight net = 0 := by
  refine List.sum_eq_zero fun x hx => ?_
  obtain ⟨p, hp, rfl⟩ := List.mem_map.1 hx
  exact h p hp

theorem total_take {c : Config B} {src : A} {dst : Ref A} {p : Packet A μ}
    {rest : List (Packet A μ)} (h : take src dst c.net = some (p, rest)) :
    L.total c = L.total { c with net := rest } + L.load p := by
  rw [total, total, L.inFlight_perm (take_perm h).2.2, inFlight_cons]
  abel

theorem total_change {c c' : Config B} {a : A} {out : List (Sending (Ref A) μ)}
    (hne : ∀ b, b ≠ a → c'.state b = c.state b) (hnet : c'.net = c.net ++ posted a out) :
    L.total c' + L.worth a (c.state a) =
      L.total c + L.worth a (c'.state a) + L.inFlight (posted a out) := by
  have hothers : ∀ b ∈ L.accounts.erase a,
      L.balance b (c'.state b) = L.balance b (c.state b) := by
    intro b hb
    rw [hne b (Finset.ne_of_mem_erase hb)]
  have hsum := Finset.sum_congr rfl hothers
  unfold total worth
  rw [hnet, inFlight_append]
  by_cases ha : a ∈ L.accounts
  · rw [if_pos ha, if_pos ha, ← Finset.add_sum_erase _ _ ha, ← Finset.add_sum_erase _ _ ha, hsum]
    abel
  · rw [Finset.erase_eq_of_notMem ha] at hsum
    rw [if_neg ha, if_neg ha, hsum]
    abel

/-- A step of `a` changes its own balance and adds what it has posted. -/
theorem total_settle {c c' : Config B} {a : A} {p : Process ε (B.State a) (Ref A) μ Unit}
    (h : c.settle a p = some c') :
    L.total c' + L.worth a (c.state a) =
      L.total c + L.worth a (c'.state a) + L.inFlight (posted a (c.emitted a p)) :=
  L.total_change (fun _ hb => Config.state_settle_ne h hb) (Config.net_settle h)

/-- A delivery changes the total by `x` when the receiver accounts for its message
up to `x`. -/
theorem total_deliver_add {M : Type} [AddCancelCommMonoid M] (L : Ledger B M) {c c' : Config B}
    {src a : A} {q : Packet A μ} {rest : List (Packet A μ)}
    {p : Process ε (B.State a) (Ref A) μ Unit} {x : M}
    (htake : take src (.actor a) c.net = some (q, rest))
    (hsettle : Config.settle { c with net := rest } a p = some c')
    (hbalance : L.worth a (c'.state a) +
        L.inFlight (posted a (Config.emitted { c with net := rest } a p)) =
      L.worth a (c.state a) + L.load q + x) : L.total c' = L.total c + x := by
  have htotal := L.total_settle hsettle
  rw [add_assoc, hbalance] at htotal
  refine add_right_cancel (b := L.worth a (c.state a)) ?_
  rw [L.total_take htake]
  refine htotal.trans ?_
  abel

theorem total_deliver {M : Type} [AddCancelCommMonoid M] (L : Ledger B M) {c c' : Config B}
    {src a : A} {q : Packet A μ} {rest : List (Packet A μ)}
    {p : Process ε (B.State a) (Ref A) μ Unit}
    (htake : take src (.actor a) c.net = some (q, rest))
    (hsettle : Config.settle { c with net := rest } a p = some c')
    (hbalance : L.worth a (c'.state a) +
        L.inFlight (posted a (Config.emitted { c with net := rest } a p)) =
      L.worth a (c.state a) + L.load q) : L.total c' = L.total c := by
  have h := L.total_deliver_add htake hsettle (x := 0) (by rw [hbalance, add_zero])
  rwa [add_zero] at h

omit [DecidableEq A] in
theorem total_inject (c : Config B) (q : Packet A μ) :
    L.total { c with net := c.net ++ [q] } = L.total c + L.load q := by
  rw [total, total, inFlight_append, inFlight_cons, inFlight_nil, add_zero, add_assoc]

end Ledger

end DOptimas.Support
