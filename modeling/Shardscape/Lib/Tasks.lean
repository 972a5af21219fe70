/-
# Tasks over a byte stream, and the scripts they follow

An `Async` task waits to read at most so many symbols, or to write some of a buffer, and goes on
with what it got or with how many were taken.  `readExact` and `writeAll` are the loops of
`AsyncReadExt::read_exact` and `AsyncWriteExt::write_all`.

A task `Follows` a script of single symbols sent and received if it ends as it should however the
stream cuts what it reads and writes.  `readExact` and `writeAll` follow the scripts one expects,
and tasks done one after the other follow their scripts one after the other (`Follows.bind`).

Two parties whose scripts are dual to each other cannot both wait for the other: where nothing is
in flight between them, they are at the same place of the script (`eq_dual_of_nothing_in_flight`).
-/

import Mathlib.Data.List.Infix

namespace Shardscape
namespace Lib

variable {β ε α γ : Type}

/-- A task: it has ended, or it waits for the stream. -/
inductive Async (β ε α : Type) where
  | done (r : Except ε α)
  | read (room : ℕ) (k : List β → Async β ε α)
  | write (b : List β) (k : ℕ → Async β ε α)

namespace Async

/-- One task after the other. -/
def bind : Async β ε α → (α → Async β ε γ) → Async β ε γ
  | .done (.ok a), f => f a
  | .done (.error e), _ => .done (.error e)
  | .read room k, f => .read room fun b => (k b).bind f
  | .write b k, f => .write b fun n => (k n).bind f

instance : Monad (Async β ε) where
  pure a := .done (.ok a)
  bind := bind

/-- A task that ends at once. -/
def lift (r : Except ε α) : Async β ε α := .done r

/-- `read_exact`: read until `n` symbols are there; `eof` is the failure of a stream that ends. -/
def readExact (eof : ε) (n : ℕ) : Async β ε (List β) :=
  if _hn : n = 0 then .done (.ok [])
  else
    .read n fun got =>
      if _hgot : got.length = 0 then .done (.error eof)
      else (readExact eof (n - got.length)).bind fun rest => .done (.ok (got ++ rest))
termination_by n
decreasing_by omega

/-- `write_all`: write until nothing is left; `zero` is the failure of a stream that takes
nothing. -/
def writeAll (zero : ε) (b : List β) : Async β ε Unit :=
  if _hb : b.length = 0 then .done (.ok ())
  else
    .write b fun n =>
      if _hn : n = 0 then .done (.error zero) else writeAll zero (b.drop n)
termination_by b.length
decreasing_by
  rw [List.length_drop]
  omega

end Async

/-! ### Scripts -/

/-- One symbol sent or received. -/
inductive Act (β : Type) where
  | send (b : β)
  | recv (b : β)

namespace Act

/-- The symbols sent. -/
def sent : List (Act β) → List β
  | [] => []
  | .send b :: s => b :: sent s
  | .recv _ :: s => sent s

/-- The symbols received. -/
def received : List (Act β) → List β
  | [] => []
  | .send _ :: s => received s
  | .recv b :: s => b :: received s

/-- The act of the other party. -/
def flip : Act β → Act β
  | .send b => .recv b
  | .recv b => .send b

/-- The script of the other party. -/
def dual (s : List (Act β)) : List (Act β) := s.map flip

/-- Nothing is sent by doing nothing. -/
@[simp] theorem sent_nil : sent ([] : List (Act β)) = [] := rfl

/-- Nothing is received by doing nothing. -/
@[simp] theorem received_nil : received ([] : List (Act β)) = [] := rfl

/-- What two scripts send is sent in turn. -/
@[simp] theorem sent_append (s s' : List (Act β)) : sent (s ++ s') = sent s ++ sent s' := by
  induction s with
  | nil => rfl
  | cons a s ih => cases a <;> simp [sent, ih]

/-- What two scripts receive is received in turn. -/
@[simp] theorem received_append (s s' : List (Act β)) :
    received (s ++ s') = received s ++ received s' := by
  induction s with
  | nil => rfl
  | cons a s ih => cases a <;> simp [received, ih]

/-- To send bytes sends them. -/
@[simp] theorem sent_map_send (b : List β) : sent (b.map .send) = b := by
  induction b with
  | nil => rfl
  | cons x b ih => simp [sent, ih]

/-- To receive bytes sends none. -/
@[simp] theorem sent_map_recv (b : List β) : sent (b.map .recv) = [] := by
  induction b with
  | nil => rfl
  | cons x b ih => simp [sent, ih]

/-- To send bytes receives none. -/
@[simp] theorem received_map_send (b : List β) : received (b.map .send) = [] := by
  induction b with
  | nil => rfl
  | cons x b ih => simp [received, ih]

/-- To receive bytes receives them. -/
@[simp] theorem received_map_recv (b : List β) : received (b.map .recv) = b := by
  induction b with
  | nil => rfl
  | cons x b ih => simp [received, ih]

/-- Each act of a script sends or receives one byte. -/
theorem length_eq (s : List (Act β)) : s.length = (sent s).length + (received s).length := by
  induction s with
  | nil => rfl
  | cons a s ih => cases a <;> simp [sent, received, ih] <;> omega

/-- The other end sends what this one receives. -/
@[simp] theorem sent_dual (s : List (Act β)) : sent (dual s) = received s := by
  induction s with
  | nil => rfl
  | cons a s ih => cases a <;> simpa [dual, sent, received, flip] using ih

/-- The other end receives what this one sends. -/
@[simp] theorem received_dual (s : List (Act β)) : received (dual s) = sent s := by
  induction s with
  | nil => rfl
  | cons a s ih => cases a <;> simpa [dual, sent, received, flip] using ih

/-- The other end of the other end is this one. -/
theorem dual_dual (s : List (Act β)) : dual (dual s) = s := by
  have hflip : ∀ a : Act β, a.flip.flip = a := fun a => by cases a <;> rfl
  simp [dual, Function.comp_def, hflip]

/-- Of two places in a script, one after the other, nothing was sent or received between them if as
much was sent and received before the one as before the other. -/
theorem eq_of_isPrefix {p q : List (Act β)} (h : p <+: q) (hsent : sent p = sent q)
    (hreceived : received p = received q) : p = q := by
  refine h.eq_of_length ?_
  rw [length_eq p, length_eq q, hsent, hreceived]

/-- **Dual parties with nothing in flight are at the same place.** -/
theorem eq_dual_of_nothing_in_flight {full p s p' s' : List (Act β)} (h : p ++ s = full)
    (h' : p' ++ s' = dual full) (hsent : sent p = received p') (hreceived : received p = sent p') :
    s' = dual s := by
  have hp : p <+: full := ⟨s, h⟩
  have hp' : dual p' <+: full := ⟨dual s', by
    rw [dual, dual, ← List.map_append, h']
    exact dual_dual full⟩
  have heq : p = dual p' := by
    rcases List.prefix_or_prefix_of_prefix hp hp' with hle | hle
    · exact eq_of_isPrefix hle (by simpa using hsent) (by simpa using hreceived)
    · exact (eq_of_isPrefix hle (by simpa using hsent.symm) (by simpa using hreceived.symm)).symm
  have hdual : p' = dual p := by rw [heq, dual_dual]
  rw [← h, dual, List.map_append, ← dual, ← hdual] at h'
  exact List.append_cancel_left h'

end Act

/-! ### Following a script -/

open Act

/-- The task does what the script says, and ends with `r`, however the stream cuts what it reads
and writes.  At the end of the stream it fails. -/
inductive Follows (r : Except ε α) : Async β ε α → List (Act β) → Prop where
  | done : Follows r (.done r) []
  | write {b : List β} {k : ℕ → Async β ε α} {s : List (Act β)} (hb : b ≠ [])
      (h : ∀ n, 0 < n → n ≤ b.length → Follows r (k n) ((b.drop n).map .send ++ s)) :
      Follows r (.write b k) (b.map .send ++ s)
  | read {b : List β} {k : List β → Async β ε α} {s : List (Act β)} (hb : b ≠ [])
      (hend : ∃ e, k [] = .done (.error e))
      (h : ∀ n, 0 < n → n ≤ b.length → Follows r (k (b.take n)) ((b.drop n).map .recv ++ s)) :
      Follows r (.read b.length k) (b.map .recv ++ s)

namespace Follows

/-- **Scripts one after the other.** -/
theorem bind {t : Async β ε α} {f : α → Async β ε γ} {a : α} {r : Except ε γ}
    {s s' : List (Act β)} (h : Follows (.ok a) t s) (h' : Follows r (f a) s') :
    Follows r (t.bind f) (s ++ s') := by
  induction h with
  | done => exact h'
  | write hb _ ih =>
    rw [List.append_assoc]
    refine .write hb fun n hn hle => ?_
    rw [← List.append_assoc]
    exact ih n hn hle
  | read hb hend _ ih =>
    obtain ⟨e, he⟩ := hend
    rw [List.append_assoc]
    refine .read hb ⟨e, by rw [he]; rfl⟩ fun n hn hle => ?_
    rw [← List.append_assoc]
    exact ih n hn hle

/-- `write_all` sends its bytes, one after the other. -/
theorem writeAll (zero : ε) (b : List β) :
    Follows (.ok ()) (Async.writeAll zero b) (b.map .send) := by
  induction hn : b.length using Nat.strong_induction_on generalizing b with
  | _ n ih =>
    rw [Async.writeAll]
    split
    · next hb => rw [List.length_eq_zero_iff.1 hb]; exact .done
    · next hb =>
        rw [← List.append_nil (b.map Act.send)]
        refine .write (fun hnil => hb (hnil ▸ rfl)) fun m hm hle => ?_
        rw [dif_neg hm.ne', List.append_nil]
        exact ih _ (by rw [List.length_drop]; omega) _ rfl

/-- `read_exact` receives as many bytes as it asks for. -/
theorem readExact (eof : ε) (b : List β) :
    Follows (.ok b) (Async.readExact eof b.length) (b.map .recv) := by
  induction hn : b.length using Nat.strong_induction_on generalizing b with
  | _ n ih =>
    subst hn
    rw [Async.readExact]
    split
    · next hb => rw [List.length_eq_zero_iff.1 hb]; exact .done
    · next hb =>
        rw [← List.append_nil (b.map Act.recv)]
        refine .read (fun hnil => hb (hnil ▸ rfl)) ⟨eof, rfl⟩ fun m hm hle => ?_
        have hlen : (b.take m).length = m := List.length_take_of_le hle
        rw [dif_neg (by omega), hlen, ← List.length_drop]
        refine (ih _ (by rw [List.length_drop]; omega) (b.drop m) rfl).bind ?_
        rw [List.take_append_drop]
        exact .done

/-- A task that has ended is through with its script. -/
theorem eq_of_done {r r' : Except ε α} {s : List (Act β)} (h : Follows r (.done r') s) :
    r = r' ∧ s = [] := by
  generalize ht : Async.done r' = t at h
  cases h with
  | done => exact ⟨(Async.done.inj ht).symm, rfl⟩
  | write => cases ht
  | read => cases ht

/-- A task that has not ended has something left of its script. -/
theorem ne_nil {t : Async β ε α} {r : Except ε α} {s : List (Act β)} (h : Follows r t s)
    (ht : ∀ r', t ≠ .done r') : s ≠ [] := by
  cases h with
  | done => exact absurd rfl (ht r)
  | write hb _ => simp [hb]
  | read hb _ _ => simp [hb]

end Follows
end Lib
end Shardscape
