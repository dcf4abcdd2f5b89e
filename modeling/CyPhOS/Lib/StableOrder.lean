import Mathlib.Data.Finset.Max
import Mathlib.Data.List.Sort
import Mathlib.Data.List.TakeWhile
import Mathlib.Order.Basic

/-! # Lists sorted by a key, in the order of arrival

`orderedInsert` with the strict order of the keys puts an element behind those of its key. A list
kept that way is sorted and holds the elements of one key in the order in which they came:
`Sorts key l arrivals`.

`Leads key l a` says that `a` is the first element of its key. In a sorted list these are the
elements that are met by going from each one to the next of another key (`leads_cons`). `Earliest`
is the choice that looks at every element: among those that satisfy `p` the ones of the lowest key,
and of these the first.
-/

namespace StableOrder

variable {α κ : Type*} [LinearOrder κ] {key : α → κ} {l m : List α} {a b c : α}

/-! ## Insertion -/

omit [LinearOrder κ] in
theorem dropWhile_congr {p q : α → Bool} (h : ∀ x ∈ l, p x = q x) :
    l.dropWhile p = l.dropWhile q := by
  induction l with
  | nil => rfl
  | cons b l ih =>
    rw [List.dropWhile_cons, List.dropWhile_cons, h b (by simp), ih fun x hx => h x (.tail b hx)]

theorem sorted_orderedInsert (h : l.Pairwise fun x y => key x ≤ key y) :
    (l.orderedInsert (fun x y => key x < key y) a).Pairwise fun x y => key x ≤ key y := by
  induction l with
  | nil => exact List.pairwise_singleton _ _
  | cons b l ih =>
    obtain ⟨hb, hl⟩ := List.pairwise_cons.mp h
    rw [List.orderedInsert_cons]
    split
    · next hlt =>
      refine List.pairwise_cons.mpr ⟨fun c hc => ?_, h⟩
      rcases List.mem_cons.mp hc with rfl | hc
      · exact hlt.le
      · exact hlt.le.trans (hb c hc)
    · next hge =>
      refine List.pairwise_cons.mpr ⟨fun c hc => ?_, ih hl⟩
      rcases List.mem_cons.mp ((List.perm_orderedInsert _ _ l).mem_iff.mp hc) with rfl | hc
      · exact not_lt.mp hge
      · exact hb c hc

/-- Everything behind the new element has a greater key. -/
theorem lt_of_mem_dropWhile {p : κ} (h : l.Pairwise fun x y => key x ≤ key y)
    (hb : b ∈ l.dropWhile fun x => !decide (p < key x)) : p < key b := by
  induction l with
  | nil => cases hb
  | cons c l ih =>
    obtain ⟨hc, hl⟩ := List.pairwise_cons.mp h
    rcases lt_or_ge p (key c) with hlt | hge
    · rw [List.dropWhile_cons_of_neg (by simpa using hlt)] at hb
      rcases List.mem_cons.mp hb with rfl | hb
      · exact hlt
      · exact hlt.trans_le (hc b hb)
    · rw [List.dropWhile_cons_of_pos (by simpa using hge)] at hb
      exact ih hl hb

theorem filter_orderedInsert (h : l.Pairwise fun x y => key x ≤ key y) (p : κ) :
    ((l.orderedInsert (fun x y => key x < key y) a).filter fun x => key x = p) =
      (l.filter fun x => key x = p) ++ [a].filter fun x => key x = p := by
  induction l with
  | nil => rfl
  | cons b l ih =>
    obtain ⟨hb, hl⟩ := List.pairwise_cons.mp h
    rw [List.orderedInsert_cons]
    split
    · next hlt =>
      -- everything from here on has a greater key than the new element
      rcases eq_or_ne (key a) p with rfl | hne
      · have hnone : ((b :: l).filter fun x => key x = key a) = [] := by
          rw [List.filter_eq_nil_iff]
          intro c hc
          rcases List.mem_cons.mp hc with rfl | hc
          · simpa using hlt.ne'
          · simpa using (hlt.trans_le (hb c hc)).ne'
        rw [hnone, List.filter_cons_of_pos (by simp), hnone, List.filter_cons_of_pos (by simp)]
        rfl
      · rw [List.filter_cons_of_neg (by simpa using hne), List.filter_cons_of_neg (a := a)
          (by simpa using hne), List.filter_nil, List.append_nil]
    · rw [List.filter_cons, List.filter_cons, ih hl]
      split <;> rfl

/-! ## Lists in the order of arrival -/

/-- `l` holds the elements of `arrivals` in the order of their keys, and elements of one key in the
order of `arrivals`. -/
structure Sorts (key : α → κ) (l arrivals : List α) : Prop where
  sorted : l.Pairwise fun x y => key x ≤ key y
  filter_eq : ∀ p, (l.filter fun x => key x = p) = arrivals.filter fun x => key x = p

namespace Sorts

theorem nil : Sorts key [] [] := ⟨List.Pairwise.nil, fun _ => rfl⟩

theorem mem_iff (h : Sorts key l m) : a ∈ l ↔ a ∈ m := by
  have hfilter : ∀ {l : List α}, a ∈ l ↔ a ∈ l.filter fun x => key x = key a := by simp
  rw [hfilter, h.filter_eq, ← hfilter]

theorem insert (h : Sorts key l m) (a : α) :
    Sorts key (l.orderedInsert (fun x y => key x < key y) a) (m ++ [a]) := by
  refine ⟨sorted_orderedInsert h.sorted, fun p => ?_⟩
  rw [filter_orderedInsert h.sorted, h.filter_eq, List.filter_append]

theorem erase [DecidableEq α] (h : Sorts key l m) (a : α) :
    Sorts key (l.erase a) (m.erase a) := by
  refine ⟨h.sorted.sublist List.erase_sublist, fun p => ?_⟩
  rw [← List.erase_filter, ← List.erase_filter, h.filter_eq]

/-- Only the keys of the elements matter. -/
theorem congr {key' : α → κ} (h : Sorts key l m) (hkey : ∀ a ∈ l, key' a = key a) :
    Sorts key' l m := by
  refine ⟨h.sorted.imp_of_mem fun ha hb hle => ?_, fun p => ?_⟩
  · rwa [hkey _ ha, hkey _ hb]
  · have hm : ∀ a ∈ m, key' a = key a := fun a ha => hkey a (h.mem_iff.mpr ha)
    calc l.filter (fun a => key' a = p) = l.filter fun a => key a = p :=
          List.filter_congr fun a ha => by rw [hkey a ha]
      _ = m.filter fun a => key a = p := h.filter_eq p
      _ = m.filter fun a => key' a = p := List.filter_congr fun a ha => by rw [hm a ha]

theorem perm [DecidableEq α] (h : Sorts key l m) (hl : l.Nodup) (hm : m.Nodup) : l.Perm m :=
  (List.perm_ext_iff_of_nodup hl hm).mpr fun _ => h.mem_iff

end Sorts

/-! ## The first of each key -/

/-- `a` is the first element of its key. -/
def Leads (key : α → κ) (l : List α) (a : α) : Prop :=
  (l.filter fun x => key x = key a).head? = some a

theorem Leads.mem (h : Leads key l a) : a ∈ l :=
  (List.mem_filter.mp (List.mem_of_mem_head? h)).1

theorem Leads.eq (h : Leads key l a) (h' : Leads key l b) (hab : key a = key b) : a = b := by
  rw [Leads, hab] at h
  exact Option.some.inj (h.symm.trans h')

variable (key) in
theorem exists_leads (h : a ∈ l) : ∃ b, Leads key l b ∧ key b = key a := by
  have hmem : a ∈ l.filter fun x => key x = key a := by simp [h]
  obtain ⟨b, hb⟩ : ∃ b, (l.filter fun x => key x = key a).head? = some b :=
    Option.isSome_iff_exists.mp (List.isSome_head?.mpr (List.ne_nil_of_mem hmem))
  have hkey : key b = key a := by simpa using (List.mem_filter.mp (List.mem_of_mem_head? hb)).2
  exact ⟨b, by rwa [Leads, hkey], hkey⟩

theorem Sorts.leads_iff (h : Sorts key l m) : Leads key l a ↔ Leads key m a := by
  rw [Leads, Leads, h.filter_eq]

/-- In a sorted list the elements behind those of the first key have greater ones. -/
theorem lt_of_mem_dropWhile_eq (h : (a :: l).Pairwise fun x y => key x ≤ key y)
    (hb : b ∈ l.dropWhile fun x => key x = key a) : key a < key b := by
  induction l with
  | nil => cases hb
  | cons c l ih =>
    obtain ⟨ha, hl⟩ := List.pairwise_cons.mp h
    rcases (ha c (by simp)).eq_or_lt with heq | hlt
    · rw [List.dropWhile_cons_of_pos (by simpa using heq.symm)] at hb
      exact ih (h.sublist (by simp)) hb
    · rw [List.dropWhile_cons_of_neg (by simpa using hlt.ne')] at hb
      rcases List.mem_cons.mp hb with rfl | hb
      · exact hlt
      · exact hlt.trans_le ((List.pairwise_cons.mp hl).1 b hb)

/-- The first of a sorted list leads, and the others that lead are found behind its key. -/
theorem leads_cons (h : (a :: l).Pairwise fun x y => key x ≤ key y) :
    Leads key (a :: l) b ↔ b = a ∨ Leads key (l.dropWhile fun x => key x = key a) b := by
  rcases eq_or_ne (key b) (key a) with hkey | hkey
  · have hnot : ¬ Leads key (l.dropWhile fun x => key x = key a) b := fun hlead =>
      (lt_of_mem_dropWhile_eq h hlead.mem).ne' hkey
    rw [Leads, hkey, List.filter_cons_of_pos (by simp), List.head?_cons, Option.some_inj]
    exact ⟨fun e => .inl e.symm, fun hb => (hb.resolve_right hnot).symm⟩
  · have hba : b ≠ a := fun e => hkey (congrArg key e)
    have hnone : ((l.takeWhile fun x => key x = key a).filter fun x => key x = key b) = [] := by
      rw [List.filter_eq_nil_iff]
      intro x hx
      have hxa : key x = key a := by simpa using List.mem_takeWhile_imp hx
      simpa [hxa] using hkey.symm
    have hsplit : (l.filter fun x => key x = key b) =
        (l.dropWhile fun x => key x = key a).filter fun x => key x = key b := by
      conv_lhs => rw [← List.takeWhile_append_dropWhile (p := fun x => key x = key a) (l := l)]
      rw [List.filter_append, hnone, List.nil_append]
    rw [Leads, List.filter_cons_of_neg (by simpa using hkey.symm), hsplit]
    exact ⟨.inr, fun hb => hb.resolve_left hba⟩

/-! ## Choosing an element -/

section
variable {p : α → Prop}

/-- Among the elements that satisfy `p` those of the lowest key, and of these the first. -/
structure Earliest (key : α → κ) (p : α → Prop) (l : List α) (a : α) : Prop where
  sat : p a
  le : ∀ b ∈ l, p b → key a ≤ key b
  first : ∃ xs ys, l = xs ++ a :: ys ∧ ∀ b ∈ xs, key b = key a → ¬ p b

/-- What going from key to key finds. -/
structure LeadsFirst (key : α → κ) (p : α → Prop) (l : List α) (a : α) : Prop where
  leads : Leads key l a
  sat : p a
  le : ∀ b, Leads key l b → p b → key a ≤ key b

/-- At the lowest key of an element that satisfies `p` the first element satisfies it. -/
def LeadsWell (key : α → κ) (p : α → Prop) (l : List α) : Prop :=
  ∀ a ∈ l, p a → (∀ b ∈ l, p b → key a ≤ key b) → ∀ b, Leads key l b → key b = key a → p b

variable (key) in
theorem exists_lowest (h : a ∈ l) (ha : p a) :
    ∃ b ∈ l, p b ∧ ∀ c ∈ l, p c → key b ≤ key c := by
  classical
  have hne : (l.filter fun x => p x).toFinset.Nonempty := ⟨a, by simp [h, ha]⟩
  obtain ⟨b, hb, hle⟩ := Finset.exists_min_image _ key hne
  simp only [List.mem_toFinset, List.mem_filter, decide_eq_true_eq] at hb hle
  exact ⟨b, hb.1, hb.2, fun c hc hpc => hle c ⟨hc, hpc⟩⟩

/-- Where the first of the keys do not mislead, some of them satisfy `p` if anything does. -/
theorem LeadsWell.exists_leads_le (h : LeadsWell key p l) (ha : a ∈ l) (hpa : p a) :
    ∃ b, Leads key l b ∧ p b ∧ key b ≤ key a := by
  obtain ⟨c, hc, hpc, hle⟩ := exists_lowest key ha hpa
  obtain ⟨b, hb, hkey⟩ := exists_leads key hc
  exact ⟨b, hb, h c hc hpc hle b hb hkey, hkey ▸ hle a ha hpa⟩

theorem LeadsFirst.leadsWell_iff (h : LeadsFirst key p l a) :
    LeadsWell key p l ↔ Earliest key p l a := by
  constructor
  · intro hwell
    have hfind := h.leads
    rw [Leads, List.head?_filter] at hfind
    obtain ⟨-, xs, ys, hsplit, hxs⟩ := List.find?_eq_some_iff_append.mp hfind
    refine ⟨h.sat, fun b hb hpb => ?_, xs, ys, hsplit, fun b hb hkey => ?_⟩
    · obtain ⟨c, hc, hpc, hle⟩ := hwell.exists_leads_le hb hpb
      exact (h.le c hc hpc).trans hle
    · have := hxs b hb
      simp [hkey] at this
  · intro hbest c hc hpc hle b hb hkey
    have hca : key c = key a := (hle a h.leads.mem h.sat).antisymm (hbest.le c hc hpc)
    rw [hb.eq h.leads (hkey.trans hca)]
    exact h.sat

theorem leadsWell_iff_of_none (h : ∀ b, Leads key l b → ¬ p b) :
    LeadsWell key p l ↔ ∀ b ∈ l, ¬ p b := by
  constructor
  · intro hwell b hb hpb
    obtain ⟨c, hc, hpc, -⟩ := hwell.exists_leads_le hb hpb
    exact h c hc hpc
  · intro hnone c hc hpc
    exact (hnone c hc hpc).elim

end

end StableOrder
