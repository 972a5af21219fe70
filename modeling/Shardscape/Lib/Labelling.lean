/-
# Labels in a sorted listing

A listing in key order shows each key under a label: the key itself, or the label
of the group the key belongs to.  The labels meet two conditions (`Labelling`): a
label is not past its key, and no key of an earlier group is past a later label.

Then the keys of a group lie together and the labels ascend with the keys.  The
first `c` keys show the first labels (`labels_take_isPrefix`), as many as begin
before the cap (`lt_length_labels_take_iff`).  A label taken as a marker passes over
its group only if the group is that one key (`keysAfter_of_lone`): otherwise the
label comes again (`head?_labels_of_not_lone`), since the other keys of a group are
past its label.
-/

import Mathlib.Data.List.Dedup
import Shardscape.Lib.Sorted

namespace Shardscape
namespace Lib

/-- The label of each key: not past the key, and past every key with a smaller
label. -/
structure Labelling (κ : Type*) [LinearOrder κ] where
  label : κ → κ
  label_le (k : κ) : label k ≤ k
  lt_label {k k' : κ} : label k < label k' → k < label k'

variable {κ : Type*} [LinearOrder κ] (f : Labelling κ) {keys : List κ}

namespace Labelling

/-- Labels are in the order of the keys. -/
theorem label_mono {k k' : κ} (h : k ≤ k') : f.label k ≤ f.label k' := by
  by_contra hlt
  have hpast : k' < f.label k := f.lt_label (not_le.1 hlt)
  exact (hpast.trans_le (f.label_le k)).not_ge h

/-- The labels of the keys, each once, in ascending order. -/
def labels (keys : List κ) : List κ := sortBy id (keys.map f.label).dedup

/-- The number of keys under the first `i` labels. -/
def before (keys : List κ) (i : ℕ) : ℕ :=
  keys.countP fun k => f.label k ∈ (f.labels keys).take i

/-- The group of `ℓ` is the key `ℓ` alone. -/
def Lone (keys : List κ) (ℓ : κ) : Prop := ∀ k ∈ keys, f.label k = ℓ → k = ℓ

/-- The labels are those of the keys. -/
@[simp] theorem mem_labels {ℓ : κ} : ℓ ∈ f.labels keys ↔ ∃ k ∈ keys, f.label k = ℓ := by
  simp [labels]

/-- They come in ascending order, each once. -/
theorem sortedBy_labels (keys : List κ) : SortedBy id (f.labels keys) :=
  sortedBy_sortBy (by simpa using List.nodup_dedup (keys.map f.label))

variable {i : ℕ}

/-- The labels before label `i` are those smaller than it. -/
theorem label_mem_take_iff (hi : i < (f.labels keys).length) {k : κ} (hk : k ∈ keys) :
    f.label k ∈ (f.labels keys).take i ↔ f.label k < (f.labels keys)[i] :=
  mem_take_iff_lt (f.sortedBy_labels keys) hi (f.mem_labels.2 ⟨k, hk, rfl⟩)

/-- No key is below the first label. -/
theorem before_zero (keys : List κ) : f.before keys 0 = 0 := by simp [before]

/-! ### The labels of the first keys -/

/-- Label `i` is among those of the first `c` keys iff fewer than `c` keys are under
the labels before it. -/
theorem getElem_mem_labels_take_iff (h : SortedBy id keys) (hi : i < (f.labels keys).length)
    (c : ℕ) :
    (f.labels keys)[i] ∈ f.labels (keys.take c) ↔ f.before keys i < c := by
  set ℓ := (f.labels keys)[i] with hℓ
  set early := keys.filter (fun k => decide (f.label k < ℓ)) with hearly
  set late := keys.filter (fun k => !decide (f.label k < ℓ)) with hlate
  have hcut : early ++ late = keys :=
    h.filter_append_filter_not fun a _ b _ hab hb =>
      decide_eq_true ((f.label_mono hab.le).trans_lt (of_decide_eq_true hb))
  have hbefore : f.before keys i = early.length := by
    rw [before, List.countP_eq_length_filter, hearly]
    refine congrArg List.length (List.filter_congr fun k hk => ?_)
    exact decide_eq_decide.2 (f.label_mem_take_iff hi hk)
  have htake : keys.take c = early.take c ++ late.take (c - early.length) := by
    rw [← List.take_append, hcut]
  rw [hbefore, mem_labels, htake]
  constructor
  · rintro ⟨k, hk, hlabel⟩
    rcases List.mem_append.1 hk with hk | hk
    · have hlt : f.label k < ℓ := by simpa using (List.mem_filter.1 (List.mem_of_mem_take hk)).2
      exact absurd hlabel hlt.ne
    · by_contra hc
      rw [show c - early.length = 0 by omega, List.take_zero] at hk
      exact absurd hk List.not_mem_nil
  · intro hc
    obtain ⟨k, hk, hlabel⟩ := f.mem_labels.1 (List.getElem_mem hi)
    have hklate : k ∈ late := List.mem_filter.2 ⟨hk, by simp [hlabel, hℓ]⟩
    -- the first of the late keys is under label `i` as well
    cases hl : late with
    | nil => simp [hl] at hklate
    | cons b rest =>
      have hsorted : SortedBy id (b :: rest) := hl ▸ h.filter _
      have hbk : b ≤ k := by
        rcases List.mem_cons.1 (hl ▸ hklate) with rfl | hr
        · exact le_rfl
        · exact (List.pairwise_cons.1 hsorted).1 k hr |>.le
      have hb : b ∈ late := hl ▸ List.mem_cons_self
      have hge : ℓ ≤ f.label b := by simpa using (List.mem_filter.1 hb).2
      refine ⟨b, List.mem_append_right _ ?_, le_antisymm ((f.label_mono hbk).trans_eq hlabel) hge⟩
      obtain ⟨d, hd⟩ : ∃ d, c - early.length = d + 1 := ⟨c - early.length - 1, by omega⟩
      rw [hd, List.take_succ_cons]
      exact List.mem_cons_self

/-- Below more labels there are more keys. -/
theorem before_mono (keys : List κ) {i j : ℕ} (h : i ≤ j) : f.before keys i ≤ f.before keys j :=
  List.countP_mono_left fun _ _ hk =>
    decide_eq_true (List.take_subset_take_left _ h (of_decide_eq_true hk))

/-- **The first keys show the first labels.** -/
theorem labels_take_isPrefix (h : SortedBy id keys) (c : ℕ) :
    f.labels (keys.take c) <+: f.labels keys := by
  have hsub : ∀ ℓ ∈ f.labels (keys.take c), ℓ ∈ f.labels keys := by
    intro ℓ hℓ
    obtain ⟨k, hk, rfl⟩ := f.mem_labels.1 hℓ
    exact f.mem_labels.2 ⟨k, List.mem_of_mem_take hk, rfl⟩
  refine isPrefix_of_lower (f.sortedBy_labels _) (f.sortedBy_labels _) hsub fun x hx y hy hxy => ?_
  obtain ⟨i, hi, rfl⟩ := List.mem_iff_getElem.1 hx
  obtain ⟨j, hj, rfl⟩ := List.mem_iff_getElem.1 (hsub y hy)
  have hij : i ≤ j := by
    by_contra hji
    exact (List.pairwise_iff_getElem.1 (f.sortedBy_labels keys) j i hj hi (by omega)).not_gt hxy
  rw [f.getElem_mem_labels_take_iff h hi]
  exact (f.before_mono keys hij).trans_lt ((f.getElem_mem_labels_take_iff h hj c).1 hy)

/-- The first `c` keys show more than `i` labels iff label `i` begins before the cap. -/
theorem lt_length_labels_take_iff (h : SortedBy id keys) (hi : i < (f.labels keys).length) (c : ℕ) :
    i < (f.labels (keys.take c)).length ↔ f.before keys i < c := by
  rw [← f.getElem_mem_labels_take_iff h hi]
  obtain ⟨rest, hrest⟩ := f.labels_take_isPrefix h c
  constructor
  · intro hlt
    have : (f.labels keys)[i] = (f.labels (keys.take c))[i] := by
      simp only [← hrest, List.getElem_append_left hlt]
    rw [this]
    exact List.getElem_mem hlt
  · intro hmem
    by_contra hge
    have hsorted := f.sortedBy_labels keys
    rw [← hrest] at hsorted
    have hlast : (f.labels keys)[i] ∈ rest := by
      simp only [← hrest]
      rw [List.getElem_append_right (by omega)]
      exact List.getElem_mem _
    exact lt_irrefl _ ((List.pairwise_append.1 hsorted).2.2 _ hmem _ hlast)

/-! ### The keys past a marker -/

/-- The keys past a marker, or all of them. -/
def keysAfter (keys : List κ) (after : Option κ) : List κ :=
  keys.filter fun k => after.all fun a => decide (a < k)

/-- The keys after a marker are the larger ones; without a marker, all. -/
theorem mem_keysAfter {after : Option κ} {k : κ} :
    k ∈ keysAfter keys after ↔ k ∈ keys ∧ ∀ a ∈ after, a < k := by
  cases after <;> simp [keysAfter]

/-- Past a marker that is a label, the next marker leaves the keys past it. -/
theorem keysAfter_next {after : Option κ} (hafter : ∀ a ∈ after, ∃ k, f.label k = a) {ℓ : κ}
    (hℓ : ℓ ∈ f.labels (keysAfter keys after)) :
    keysAfter (keysAfter keys after) (some ℓ) = keysAfter keys (some ℓ) := by
  obtain ⟨k, hk, rfl⟩ := f.mem_labels.1 hℓ
  simp only [keysAfter, List.filter_filter]
  refine List.filter_congr fun x _ => ?_
  cases after with
  | none => simp
  | some a =>
    obtain ⟨k₀, rfl⟩ := hafter _ rfl
    have hle : f.label k₀ ≤ f.label k := by
      by_contra hlt
      exact ((mem_keysAfter.1 hk).2 _ rfl).not_gt (f.lt_label (not_le.1 hlt))
    simpa using fun hx : f.label k < x => hle.trans_lt hx

/-- A key past label `i` is under a later label, or another key of that group. -/
theorem getElem_lt_iff (hi : i < (f.labels keys).length) {k : κ} (hk : k ∈ keys) :
    (f.labels keys)[i] < k ↔
      f.label k ∉ (f.labels keys).take (i + 1) ∨
        (f.label k = (f.labels keys)[i] ∧ k ≠ (f.labels keys)[i]) := by
  obtain ⟨k₀, -, hk₀⟩ := f.mem_labels.1 (List.getElem_mem hi)
  have hmem : f.label k ∈ (f.labels keys).take (i + 1) ↔ f.label k ≤ (f.labels keys)[i] := by
    rw [← List.take_append_getElem hi, List.mem_append, f.label_mem_take_iff hi hk,
      List.mem_singleton, le_iff_lt_or_eq]
  rw [hmem, not_le, ← hk₀]
  constructor
  · intro hlt
    rcases lt_trichotomy (f.label k) (f.label k₀) with h | h | h
    · exact absurd hlt (f.lt_label h).not_gt
    · exact .inr ⟨h, hlt.ne'⟩
    · exact .inl h
  · rintro (h | ⟨h, hne⟩)
    · exact h.trans_le (f.label_le k)
    · exact lt_of_le_of_ne (h ▸ f.label_le k) hne.symm

/-! ### The keys under later labels -/

/-- The keys under the labels from `i` on. -/
def remaining (keys : List κ) (i : ℕ) : List κ :=
  keys.filter fun k => f.label k ∉ (f.labels keys).take i

/-- The remaining keys are those whose label is not among the first `i`. -/
theorem mem_remaining {k : κ} :
    k ∈ f.remaining keys i ↔ k ∈ keys ∧ f.label k ∈ (f.labels keys).drop i := by
  rw [remaining, List.mem_filter, decide_eq_true_iff]
  refine and_congr_right fun hk => ?_
  have hmem : f.label k ∈ (f.labels keys).take i ++ (f.labels keys).drop i := by
    rw [List.take_append_drop]
    exact f.mem_labels.2 ⟨k, hk, rfl⟩
  refine ⟨fun hnot => (List.mem_append.1 hmem).resolve_left hnot, fun hdrop htake => ?_⟩
  exact lt_irrefl _
    (List.Pairwise.rel_of_mem_take_of_mem_drop (f.sortedBy_labels keys) htake hdrop)

/-- The keys from label `i` on have the labels from `i` on. -/
theorem labels_remaining (keys : List κ) (i : ℕ) :
    f.labels (f.remaining keys i) = (f.labels keys).drop i := by
  refine eq_of_mem_iff (f.sortedBy_labels _) ((f.sortedBy_labels keys).drop) fun ℓ => ?_
  rw [mem_labels]
  constructor
  · rintro ⟨k, hk, rfl⟩
    exact (f.mem_remaining.1 hk).2
  · intro hℓ
    obtain ⟨k, hk, rfl⟩ := f.mem_labels.1 (List.mem_of_mem_drop hℓ)
    exact ⟨k, f.mem_remaining.2 ⟨hk, hℓ⟩, rfl⟩

/-- The keys under `i + j` labels: those under the first `i`, and those under the
next `j`. -/
theorem before_add (keys : List κ) (i j : ℕ) :
    f.before keys (i + j) = f.before keys i + f.before (f.remaining keys i) j := by
  have hsplit : f.before (f.remaining keys i) j =
      keys.countP fun k => decide (f.label k ∈ (f.labels keys).take (i + j)) &&
        !decide (f.label k ∈ (f.labels keys).take i) := by
    rw [before, labels_remaining, remaining, List.countP_filter]
    refine List.countP_congr fun k _ => ?_
    simp only [List.take_add, List.mem_append, Bool.and_eq_true, decide_eq_true_eq,
      Bool.not_eq_true', decide_eq_false_iff_not]
    tauto
  have hsub : f.before keys i =
      keys.countP fun k => decide (f.label k ∈ (f.labels keys).take (i + j)) &&
        decide (f.label k ∈ (f.labels keys).take i) := by
    refine List.countP_congr fun k _ => ?_
    simp only [List.take_add, List.mem_append, Bool.and_eq_true, decide_eq_true_eq]
    tauto
  rw [hsplit, hsub, before, List.countP_eq_countP_filter_add _ _
    fun k => decide (f.label k ∈ (f.labels keys).take i), List.countP_filter, List.countP_filter]

/-- A later group is lone in the rest iff it is lone. -/
theorem lone_remaining_iff {ℓ : κ} (hℓ : ℓ ∈ (f.labels keys).drop i) :
    f.Lone (f.remaining keys i) ℓ ↔ f.Lone keys ℓ := by
  refine ⟨fun h k hk hlabel => ?_, fun h k hk => h k (List.mem_of_mem_filter hk)⟩
  exact h k (f.mem_remaining.2 ⟨hk, hlabel ▸ hℓ⟩) hlabel

/-- Past a lone key are the keys under later labels. -/
theorem keysAfter_of_lone (hi : i < (f.labels keys).length)
    (hlone : f.Lone keys (f.labels keys)[i]) :
    keysAfter keys (some (f.labels keys)[i]) = f.remaining keys (i + 1) := by
  refine List.filter_congr fun k hk => ?_
  have hno : ¬ (f.label k = (f.labels keys)[i] ∧ k ≠ (f.labels keys)[i]) :=
    fun h => h.2 (hlone k hk h.1)
  simpa only [Option.all_some, decide_eq_decide, hno, or_false] using f.getElem_lt_iff hi hk

/-- Past the label of a group with another key comes that label again. -/
theorem head?_labels_of_not_lone (hi : i < (f.labels keys).length)
    (hlone : ¬ f.Lone keys (f.labels keys)[i]) :
    (f.labels (keysAfter keys (some (f.labels keys)[i]))).head? = some (f.labels keys)[i] := by
  simp only [Lone, not_forall] at hlone
  obtain ⟨k, hk, hlabel, hne⟩ := hlone
  have hpast : k ∈ keysAfter keys (some (f.labels keys)[i]) :=
    mem_keysAfter.2 ⟨hk, fun a ha => by
      cases ha
      exact (f.getElem_lt_iff hi hk).2 (.inr ⟨hlabel, hne⟩)⟩
  have hmem := f.mem_labels.2 ⟨k, hpast, rfl⟩
  have hsorted := f.sortedBy_labels (keysAfter keys (some (f.labels keys)[i]))
  cases hl : f.labels (keysAfter keys (some (f.labels keys)[i])) with
  | nil => simp [hl] at hmem
  | cons ℓ rest =>
    rw [hl] at hmem hsorted
    have hle : f.label k ≤ ℓ := by
      obtain ⟨k', hk', rfl⟩ := f.mem_labels.1 (hl ▸ List.mem_cons_self (a := ℓ) (l := rest))
      obtain ⟨-, hlt⟩ := mem_keysAfter.1 hk'
      by_contra h
      exact (hlt _ rfl).not_gt (hlabel ▸ f.lt_label (not_le.1 h))
    rcases List.mem_cons.1 hmem with h | h
    · rw [List.head?_cons, ← h, hlabel]
    · exact absurd ((List.pairwise_cons.1 hsorted).1 _ h) hle.not_gt

end Labelling
end Lib
end Shardscape
