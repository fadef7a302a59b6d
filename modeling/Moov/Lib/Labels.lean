import Mathlib.Logic.Relation
import Mathlib.Order.Bounds.Basic

/-!
# Components labelled by their least element

The elements of a set carry labels.  The labels *name* the components of a relation when
two elements have the same label exactly when they are connected, and the label of a
component is the least rank in it.  This is what an incremental union-find keeps:

* `Names.grow`: elements that no edge touches are added with their own rank as label;
* `Names.join`: an element and the labels of its neighbours are given the least of them,
  and the new labels name the components with the new edges.

Elements and ranks are arbitrary; ranks are distinct and linearly ordered.
-/

namespace Moov.Labels

open Relation

variable {α β : Type*}

/-- Connected elements are equal or both have an edge. -/
lemma eq_or_exists_of_eqvGen {r : α → α → Prop} {x y : α} (h : EqvGen r x y) :
    x = y ∨ (∃ z, r x z ∨ r z x) ∧ ∃ z, r y z ∨ r z y := by
  induction h with
  | rel a b hab => exact .inr ⟨⟨b, .inl hab⟩, ⟨a, .inr hab⟩⟩
  | refl => exact .inl rfl
  | symm a b _ ih => exact ih.imp Eq.symm And.symm
  | trans a b c _ _ ih₁ ih₂ =>
    rcases ih₁ with rfl | ⟨ha, hb⟩
    · exact ih₂
    · rcases ih₂ with rfl | ⟨-, hc⟩
      · exact .inr ⟨ha, hb⟩
      · exact .inr ⟨ha, hc⟩

/-- The labels of the elements of `S` name the components of `r`. -/
structure Names [LinearOrder β] (S : Set α) (r : α → α → Prop) (rank label : α → β) : Prop where
  edges : ∀ x y, r x y → x ∈ S ∧ y ∈ S
  same : ∀ x ∈ S, ∀ y ∈ S, label x = label y ↔ EqvGen r x y
  le : ∀ x ∈ S, label x ≤ rank x
  attained : ∀ x ∈ S, ∃ y ∈ S, rank y = label x ∧ label y = label x

namespace Names

variable [LinearOrder β] {S Z N : Set α} {r : α → α → Prop} {rank label label' : α → β} {m x : α}
  {w : β}

/-- The label of an element is the least rank in its component. -/
lemma isLeast (h : Names S r rank label) (hx : x ∈ S) :
    IsLeast {n | ∃ y ∈ S, EqvGen r x y ∧ rank y = n} (label x) := by
  obtain ⟨y, hy, hrank, hlabel⟩ := h.attained x hx
  refine ⟨⟨y, hy, (h.same x hx y hy).1 hlabel.symm, hrank⟩, ?_⟩
  rintro n ⟨z, hz, hxz, rfl⟩
  rw [(h.same x hx z hz).2 hxz]
  exact h.le z hz

/-- New elements are components of their own. -/
lemma grow (h : Names S r rank label) (hinj : Set.InjOn rank (S ∪ Z)) (hZ : ∀ z ∈ Z, z ∉ S)
    (hold : ∀ x ∈ S, label' x = label x) (hnew : ∀ z ∈ Z, label' z = rank z) :
    Names (S ∪ Z) r rank label' := by
  have hsingle : ∀ z ∈ Z, ∀ x, EqvGen r z x → z = x := by
    intro z hz x hzx
    rcases eq_or_exists_of_eqvGen hzx with he | ⟨⟨y, hy⟩, -⟩
    · exact he
    · exact absurd (hy.elim (fun hzy => (h.edges z y hzy).1) fun hyz => (h.edges y z hyz).2)
        (hZ z hz)
  -- A new element has its own rank, which no component of old elements has for its label.
  have hdiff : ∀ x ∈ S, ∀ z ∈ Z, label' x ≠ label' z := by
    intro x hx z hz he
    obtain ⟨y, hy, hrank, -⟩ := h.attained x hx
    rw [hold x hx, hnew z hz, ← hrank] at he
    exact hZ z hz (hinj (.inl hy) (.inr hz) he ▸ hy)
  refine ⟨fun x y hxy => ⟨.inl (h.edges x y hxy).1, .inl (h.edges x y hxy).2⟩, ?_, ?_, ?_⟩
  · rintro x (hx | hx) y (hy | hy)
    · rw [hold x hx, hold y hy]
      exact h.same x hx y hy
    · refine ⟨fun he => absurd he (hdiff x hx y hy), fun he => ?_⟩
      exact absurd (hsingle y hy x (he.symm _ _) ▸ hx) (hZ y hy)
    · refine ⟨fun he => absurd he.symm (hdiff y hy x hx), fun he => ?_⟩
      exact absurd (hsingle x hx y he ▸ hy) (hZ x hx)
    · refine ⟨fun he => ?_, fun he => by rw [hsingle x hx y he]⟩
      rw [hnew x hx, hnew y hy] at he
      rw [hinj (.inr hx) (.inr hy) he]
      exact .refl y
  · rintro x (hx | hx)
    · rw [hold x hx]
      exact h.le x hx
    · exact (hnew x hx).le
  · rintro x (hx | hx)
    · obtain ⟨y, hy, hrank, hlabel⟩ := h.attained x hx
      exact ⟨y, .inl hy, by rw [hold x hx, hrank], by rw [hold x hx, hold y hy, hlabel]⟩
    · exact ⟨x, .inr hx, (hnew x hx).symm, rfl⟩

/-- An element whose neighbours are among `N` shares its label with one of them, or with no
other element. -/
lemma shared (h : Names S r rank label) (hm : m ∈ S) (hN : ∀ y, r m y ∨ r y m → y ∈ N)
    (hx : x ∈ S) (he : label x = label m) : x = m ∨ label m ∈ label '' N := by
  rcases eq_or_exists_of_eqvGen ((h.same m hm x hx).1 he.symm) with hmx | ⟨⟨y, hy⟩, -⟩
  · exact .inl hmx.symm
  · refine .inr ⟨y, hN y hy, ?_⟩
    have hyS : y ∈ S := hy.elim (fun hmy => (h.edges m y hmy).2) fun hym => (h.edges y m hym).1
    refine ((h.same m hm y hyS).2 ?_).symm
    exact hy.elim (EqvGen.rel m y) fun hym => (EqvGen.rel y m hym).symm _ _

/-- The elements that are brought together: `m`, and those with the label of a neighbour. -/
def Joined (label : α → β) (m : α) (N : Set α) (x : α) : Prop := x = m ∨ label x ∈ label '' N

/-- Elements with one label are brought together or left alone together. -/
lemma joined_of_label_eq (h : Names S r rank label) (hm : m ∈ S)
    (hN : ∀ y, r m y ∨ r y m → y ∈ N) {y : α} (hy : y ∈ S) (he : label x = label y)
    (hx : Joined label m N x) : Joined label m N y := by
  rcases hx with rfl | hx
  · exact (h.shared hm hN hy he.symm).imp_right fun hmem => he ▸ hmem
  · exact .inr (he ▸ hx)

/-- **Joining an element with its neighbours.**  The element and every label of a neighbour
are given the least of these labels and the element's rank. -/
theorem join (h : Names S r rank label) (hinj : Set.InjOn rank S) (hm : m ∈ S) (hNS : N ⊆ S)
    (hN : ∀ y, r m y ∨ r y m → y ∈ N) (hwm : w ≤ rank m) (hwN : ∀ y ∈ N, w ≤ label y)
    (hw : w = rank m ∨ w ∈ label '' N) (hjoined : ∀ x ∈ S, Joined label m N x → label' x = w)
    (hkept : ∀ x ∈ S, ¬ Joined label m N x → label' x = label x) :
    Names S (fun x y => r x y ∨ x = m ∧ y ∈ N) rank label' := by
  have hmono : ∀ x y, EqvGen r x y → EqvGen (fun x y => r x y ∨ x = m ∧ y ∈ N) x y :=
    fun x y hxy => hxy.mono fun a b hab => .inl hab
  have htom : ∀ x ∈ S, Joined label m N x → EqvGen (fun x y => r x y ∨ x = m ∧ y ∈ N) x m := by
    rintro x hx (rfl | ⟨n, hn, hlabel⟩)
    · exact .refl x
    · have hxn := hmono x n ((h.same x hx n (hNS hn)).1 hlabel.symm)
      exact hxn.trans _ _ _ (EqvGen.symm _ _ (.rel m n (.inr ⟨rfl, hn⟩)))
  -- The label of an element that is left alone is none of those that are brought together.
  have halone : ∀ y ∈ S, ¬ Joined label m N y → w ≠ label y := by
    rintro y hy hno rfl
    rcases hw with hw | hw
    · obtain ⟨z, hz, hrank, hlabel⟩ := h.attained y hy
      obtain rfl := hinj hz hm (hrank.trans hw)
      exact hno (h.joined_of_label_eq hm hN hy hlabel (.inl rfl))
    · exact hno (.inr hw)
  refine ⟨?_, fun x hx y hy => ⟨fun he => ?_, fun he => ?_⟩, fun x hx => ?_, fun x hx => ?_⟩
  · rintro x y (hxy | ⟨rfl, hy⟩)
    · exact h.edges x y hxy
    · exact ⟨hm, hNS hy⟩
  · by_cases hjx : Joined label m N x <;> by_cases hjy : Joined label m N y
    · exact (htom x hx hjx).trans _ _ _ ((htom y hy hjy).symm _ _)
    · rw [hjoined x hx hjx, hkept y hy hjy] at he
      exact absurd he (halone y hy hjy)
    · rw [hkept x hx hjx, hjoined y hy hjy] at he
      exact absurd he.symm (halone x hx hjx)
    · rw [hkept x hx hjx, hkept y hy hjy] at he
      exact hmono x y ((h.same x hx y hy).1 he)
  · clear hx hy
    induction he with
    | rel a b hab =>
      rcases hab with hab | ⟨rfl, hb⟩
      · obtain ⟨ha, hb⟩ := h.edges a b hab
        have hlabel : label a = label b := (h.same a ha b hb).2 (.rel a b hab)
        by_cases hja : Joined label m N a
        · rw [hjoined a ha hja, hjoined b hb (h.joined_of_label_eq hm hN hb hlabel hja)]
        · have hjb : ¬ Joined label m N b :=
            fun hjb => hja (h.joined_of_label_eq hm hN ha hlabel.symm hjb)
          rw [hkept a ha hja, hkept b hb hjb, hlabel]
      · rw [hjoined a hm (.inl rfl), hjoined b (hNS hb) (.inr ⟨b, hb, rfl⟩)]
    | refl => rfl
    | symm a b _ ih => exact ih.symm
    | trans a b c _ _ ih₁ ih₂ => exact ih₁.trans ih₂
  · by_cases hjx : Joined label m N x
    · rw [hjoined x hx hjx]
      rcases hjx with rfl | ⟨n, hn, hlabel⟩
      · exact hwm
      · exact ((hwN n hn).trans_eq hlabel).trans (h.le x hx)
    · rw [hkept x hx hjx]
      exact h.le x hx
  · by_cases hjx : Joined label m N x
    · rw [hjoined x hx hjx]
      rcases hw with hw | ⟨n, hn, hlabel⟩
      · exact ⟨m, hm, hw.symm, hjoined m hm (.inl rfl)⟩
      · obtain ⟨y, hy, hrank, hy'⟩ := h.attained n (hNS hn)
        exact ⟨y, hy, hrank.trans hlabel, hjoined y hy (.inr ⟨n, hn, hy'.symm⟩)⟩
    · obtain ⟨y, hy, hrank, hlabel⟩ := h.attained x hx
      have hjy : ¬ Joined label m N y :=
        fun hjy => hjx (h.joined_of_label_eq hm hN hx hlabel hjy)
      rw [hkept x hx hjx]
      exact ⟨y, hy, hrank, by rw [hkept y hy hjy, hlabel]⟩

end Names

end Moov.Labels
