import Mathlib.Data.Set.Insert
import Mathlib.Logic.Relation

/-!
# Trees of named links

Objects that are linked from one another by names, from a root on, each with contents of its own.
Some of the objects that are linked from the root are collections, and what is linked from a
collection is a member of it.  Links are changed in the root and in the collections only, and this
leaves every member, with all that is below it, as it is.
-/

structure LinkTree (ι ν γ : Type*) where
  root : ι
  link : ι → ν → Option ι
  contents : ι → γ

namespace LinkTree

variable {ι ν γ : Type*} {t t' t'' : LinkTree ι ν γ} {ks : Set ν} {p q o x m c : ι} {n k : ν}
  {l : Option ι}

/-- An object is linked at most once, and the root is not. -/
structure IsTree (t : LinkTree ι ν γ) : Prop where
  root : ∀ p n, t.link p n ≠ some t.root
  once : ∀ {p q o n k}, t.link p n = some o → t.link q k = some o → p = q ∧ n = k

/-- The object is not in the tree. -/
structure Fresh (t : LinkTree ι ν γ) (o : ι) : Prop where
  root : o ≠ t.root
  unlinked : ∀ p n, t.link p n ≠ some o
  empty : ∀ n, t.link o n = none

/-- The first object or one that is reached from it. -/
def Below (t : LinkTree ι ν γ) : ι → ι → Prop :=
  Relation.ReflTransGen fun p o => ∃ n, t.link p n = some o

/-- An object is linked from the collection of this name. -/
def MemberOf (t : LinkTree ι ν γ) (k : ν) (o : ι) : Prop :=
  ∃ c n, t.link t.root k = some c ∧ t.link c n = some o

/-- An object is linked from one of the collections. -/
def Member (t : LinkTree ι ν γ) (ks : Set ν) (o : ι) : Prop := ∃ k ∈ ks, t.MemberOf k o

/-- The names of the members of a collection. -/
def names (t : LinkTree ι ν γ) (k : ν) : Set ν :=
  {n | ∃ c o, t.link t.root k = some c ∧ t.link c n = some o}

/-- The root or a collection. -/
def Place (t : LinkTree ι ν γ) (ks : Set ν) (p : ι) : Prop :=
  p = t.root ∨ ∃ k ∈ ks, t.link t.root k = some p

/-- The root is not linked, and a collection is linked only where it is one. -/
structure Apart (t : LinkTree ι ν γ) (ks : Set ν) : Prop where
  root : ∀ p n, t.link p n ≠ some t.root
  collection : ∀ {k c p n}, k ∈ ks → t.link t.root k = some c → t.link p n = some c →
    p = t.root ∧ n = k

/-- An object, and all that is below it, is as it was. -/
def Same (t t' : LinkTree ι ν γ) (m : ι) : Prop :=
  ∀ o, t.Below m o → t'.link o = t.link o ∧ t'.contents o = t.contents o

/-- All members are still there, and are as they were. -/
def Keeps (ks : Set ν) (t t' : LinkTree ι ν γ) : Prop :=
  ∀ m, t.Member ks m → t'.Member ks m ∧ t.Same t' m

/-! ## Changes -/

/-- One link is changed; of an object that was not in the tree, the contents are not known. -/
structure Relinks (t : LinkTree ι ν γ) (p : ι) (n : ν) (l : Option ι) (t' : LinkTree ι ν γ) :
    Prop where
  root : t'.root = t.root
  link : t'.link p n = l
  links : ∀ {q k}, (q = p → k ≠ n) → t'.link q k = t.link q k
  contents : ∀ {o}, ¬ t.Fresh o → t'.contents o = t.contents o

/-- The contents of one object are changed. -/
structure Fills (t : LinkTree ι ν γ) (o : ι) (t' : LinkTree ι ν γ) : Prop where
  root : t'.root = t.root
  link : t'.link = t.link
  contents : ∀ {q}, q ≠ o → t'.contents q = t.contents q

theorem IsTree.apart (h : t.IsTree) : t.Apart ks where
  root := h.root
  collection _ hc hp := (h.once hc hp).imp Eq.symm Eq.symm

/-- A tree without links. -/
theorem apart_of_link (h : ∀ p n, t.link p n = none) : t.Apart ks where
  root p n hroot := by
    rw [h] at hroot
    cases hroot
  collection _ hc _ := by
    rw [h] at hc
    cases hc

theorem names_of_link (h : ∀ p n, t.link p n = none) : t.names k = ∅ := by
  ext n
  refine iff_of_false ?_ (Set.notMem_empty n)
  rintro ⟨c, o, hc, -⟩
  rw [h] at hc
  cases hc

/-! ## Members -/

/-- What is below something that is linked is linked. -/
theorem linked_of_below (h : t.Below m o) (hm : t.link p n = some m) :
    ∃ q k, t.link q k = some o := by
  induction h with
  | refl => exact ⟨p, n, hm⟩
  | tail _ hlink _ => exact ⟨_, hlink⟩

theorem not_fresh_of_below (h : t.Below m o) (hm : t.Member ks m) : ¬ t.Fresh o := by
  obtain ⟨k, -, c, n, -, hlink⟩ := hm
  obtain ⟨q, k', ho⟩ := linked_of_below h hlink
  exact fun hfresh => hfresh.unlinked q k' ho

theorem Apart.not_place_of_link (apart : t.Apart ks) (hp : p ≠ t.root)
    (h : t.link p n = some o) : ¬ t.Place ks o := by
  rintro (rfl | ⟨k, hk, ho⟩)
  · exact apart.root p n h
  · exact hp (apart.collection hk ho h).1

theorem Apart.ne_root (apart : t.Apart ks) (h : t.link p n = some o) : o ≠ t.root := by
  rintro rfl
  exact apart.root p n h

/-- Neither the root nor a collection is below a member. -/
theorem Apart.not_place (apart : t.Apart ks) (hm : t.Member ks m) (h : t.Below m o) :
    ¬ t.Place ks o := by
  induction h with
  | refl =>
    obtain ⟨k, -, c, n, hc, hlink⟩ := hm
    exact apart.not_place_of_link (apart.ne_root hc) hlink
  | tail _ hlink ih =>
    obtain ⟨n, hlink⟩ := hlink
    exact apart.not_place_of_link (fun hroot => ih (.inl hroot)) hlink

/-! ## What stays the same -/

theorem Same.below (h : t.Same t' m) (ho : t.Below m o) : t'.Below m o := by
  induction ho with
  | refl => exact .refl
  | tail hbelow hlink ih =>
    refine ih.tail ?_
    rw [(h _ hbelow).1]
    exact hlink

theorem Same.trans (h : t.Same t' m) (h' : t'.Same t'' m) : t.Same t'' m := by
  intro o ho
  obtain ⟨hlink, hcontents⟩ := h o ho
  obtain ⟨hlink', hcontents'⟩ := h' o (h.below ho)
  exact ⟨hlink'.trans hlink, hcontents'.trans hcontents⟩

theorem Keeps.refl (t : LinkTree ι ν γ) : Keeps ks t t := fun _ hm => ⟨hm, fun _ _ => ⟨rfl, rfl⟩⟩

theorem Keeps.trans (h : Keeps ks t t') (h' : Keeps ks t' t'') : Keeps ks t t'' := by
  intro m hm
  obtain ⟨hm', hsame⟩ := h m hm
  obtain ⟨hm'', hsame'⟩ := h' m hm'
  exact ⟨hm'', hsame.trans hsame'⟩

/-- What is not in the tree later is not below a member now. -/
theorem Keeps.not_below (h : Keeps ks t t') (hx : t'.Fresh x) (hm : t.Member ks m) :
    ¬ t.Below m x := by
  obtain ⟨hm', hsame⟩ := h m hm
  exact fun hbelow => not_fresh_of_below (hsame.below hbelow) hm' hx

theorem Fills.refl (t : LinkTree ι ν γ) (o : ι) : t.Fills o t := ⟨rfl, rfl, fun _ => rfl⟩

theorem Fills.trans (h : t.Fills o t') (h' : t'.Fills o t'') : t.Fills o t'' where
  root := h'.root.trans h.root
  link := h'.link.trans h.link
  contents hq := (h'.contents hq).trans (h.contents hq)

/-- To fill an object changes no member that it is not below. -/
theorem Keeps.fills (h : Keeps ks t t') (hx : ∀ m, t.Member ks m → ¬ t.Below m x)
    (fills : t'.Fills x t'') : Keeps ks t t'' := by
  intro m hm
  obtain ⟨⟨k, hk, c, n, hc, hlink⟩, hsame⟩ := h m hm
  refine ⟨⟨k, hk, c, n, ?_, ?_⟩, fun o ho => ?_⟩
  · rwa [fills.root, fills.link]
  · rwa [fills.link]
  · obtain ⟨hlinks, hcontents⟩ := hsame o ho
    have hne : o ≠ x := by
      rintro rfl
      exact hx m hm ho
    exact ⟨by rw [fills.link, hlinks], (fills.contents hne).trans hcontents⟩

theorem Apart.fills (apart : t.Apart ks) (fills : t.Fills x t') : t'.Apart ks where
  root := by
    rw [fills.root, fills.link]
    exact apart.root
  collection := by
    rw [fills.root, fills.link]
    exact apart.collection

/-! ## Links that are changed -/

namespace Relinks

theorem link_of_some (h : t.Relinks p n l t') (absent : t.link p n = none)
    (hlink : t.link q k = some o) : t'.link q k = some o := by
  rw [h.links ?_, hlink]
  rintro rfl rfl
  rw [absent] at hlink
  cases hlink

theorem same (h : t.Relinks p n l t') (apart : t.Apart ks) (place : t.Place ks p)
    (hm : t.Member ks m) : t.Same t' m := by
  intro o ho
  refine ⟨funext fun k => h.links ?_, h.contents (not_fresh_of_below ho hm)⟩
  rintro rfl
  exact absurd place (apart.not_place hm ho)

/-- To make a link where there is none keeps the members. -/
theorem keeps (h : t.Relinks p n l t') (apart : t.Apart ks) (place : t.Place ks p)
    (absent : t.link p n = none) : Keeps ks t t' := by
  intro m hm
  refine ⟨?_, h.same apart place hm⟩
  obtain ⟨k, hk, c, n', hc, hlink⟩ := hm
  refine ⟨k, hk, c, n', ?_, h.link_of_some absent hlink⟩
  rw [h.root]
  exact h.link_of_some absent hc

/-- To remove a link from a collection keeps the members if what it leads to is linked from another
collection too, or by another name. -/
theorem keeps_of_other (h : t.Relinks p n none t') (apart : t.Apart ks) (hk : k ∈ ks)
    (hp : t.link t.root k = some p) {d : ι} {k' n' : ν} (hk' : k' ∈ ks)
    (hd : t.link t.root k' = some d) (hother : t.link d n' = t.link p n) (hne : d = p → n' ≠ n) :
    Keeps ks t t' := by
  intro m hm
  refine ⟨?_, h.same apart (.inr ⟨k, hk, hp⟩) hm⟩
  have hroot : ∀ {k c}, t.link t.root k = some c → t'.link t'.root k = some c := by
    intro k c hc
    rw [h.root, h.links, hc]
    intro heq
    exact absurd heq.symm (apart.ne_root hp)
  obtain ⟨k₀, hk₀, c, n₀, hc, hlink⟩ := hm
  by_cases heq : c = p ∧ n₀ = n
  · obtain ⟨rfl, rfl⟩ := heq
    exact ⟨k', hk', d, n', hroot hd, by rw [h.links hne, hother, hlink]⟩
  · refine ⟨k₀, hk₀, c, n₀, hroot hc, ?_⟩
    rw [h.links fun h₁ h₂ => heq ⟨h₁, h₂⟩, hlink]

/-- A link is made to something that is not a collection, or a new collection is linked. -/
theorem apart (h : t.Relinks p n (some x) t') (apart : t.Apart ks) (absent : t.link p n = none)
    (hx : t.Fresh x ∨ p ≠ t.root ∧ ¬ t.Place ks x) : t'.Apart ks := by
  have hroot : x ≠ t.root := by
    rcases hx with hx | ⟨-, hx⟩
    · exact hx.root
    · exact fun heq => hx (.inl heq)
  -- a link of the new tree is the new one or is one of the old tree
  have hcases : ∀ {q k o}, t'.link q k = some o → (q = p ∧ k = n ∧ o = x) ∨ t.link q k = some o := by
    intro q k o hlink
    by_cases heq : q = p ∧ k = n
    · obtain ⟨rfl, rfl⟩ := heq
      rw [h.link, Option.some.injEq] at hlink
      exact .inl ⟨rfl, rfl, hlink.symm⟩
    · rw [h.links fun h₁ h₂ => heq ⟨h₁, h₂⟩] at hlink
      exact .inr hlink
  constructor
  · intro q k hlink
    rw [h.root] at hlink
    rcases hcases hlink with ⟨-, -, heq⟩ | hold
    · exact hroot heq.symm
    · exact apart.root q k hold
  · intro k c q m hk hc hlink
    rw [h.root] at hc ⊢
    rcases hcases hc with ⟨heq, rfl, rfl⟩ | hc
    · have hfresh := hx.resolve_right fun hx => hx.1 heq.symm
      rcases hcases hlink with ⟨rfl, rfl, -⟩ | hold
      · exact ⟨heq.symm, rfl⟩
      · exact absurd hold (hfresh.unlinked q m)
    · rcases hcases hlink with ⟨rfl, rfl, rfl⟩ | hold
      · rcases hx with hfresh | ⟨-, hx⟩
        · exact absurd hc (hfresh.unlinked _ _)
        · exact absurd (.inr ⟨k, hk, hc⟩) hx
      · exact apart.collection hk hc hold

theorem apart_of_none (h : t.Relinks p n none t') (apart : t.Apart ks) : t'.Apart ks := by
  have hold : ∀ {q k o}, t'.link q k = some o → t.link q k = some o := by
    intro q k o hlink
    by_cases heq : q = p ∧ k = n
    · obtain ⟨rfl, rfl⟩ := heq
      rw [h.link] at hlink
      cases hlink
    · rwa [h.links fun h₁ h₂ => heq ⟨h₁, h₂⟩] at hlink
  constructor
  · intro q k hlink
    rw [h.root] at hlink
    exact apart.root q k (hold hlink)
  · intro k c q m hk hc hlink
    rw [h.root] at hc ⊢
    exact apart.collection hk (hold hc) (hold hlink)

/-- A new collection has no members. -/
theorem names_root (h : t.Relinks t.root k (some x) t') (absent : t.link t.root k = none)
    (hx : t.Fresh x) : t.names k = ∅ ∧ t'.names k = ∅ := by
  constructor <;> ext n <;> refine iff_of_false ?_ (Set.notMem_empty n)
  · rintro ⟨c, o, hc, -⟩
    rw [absent] at hc
    cases hc
  · rintro ⟨c, o, hc, hlink⟩
    rw [h.root, h.link, Option.some.injEq] at hc
    subst hc
    rw [h.links fun heq => absurd heq hx.root, hx.empty] at hlink
    cases hlink

/-- A new member of a collection has a name there. -/
theorem names_insert (h : t.Relinks c n (some x) t') (hc : t.link t.root k = some c)
    (absent : t.link c n = none) : t'.names k = insert n (t.names k) := by
  have hc' : t'.link t'.root k = some c := by
    rw [h.root]
    exact h.link_of_some absent hc
  ext n'
  rw [Set.mem_insert_iff]
  by_cases heq : n' = n
  · subst heq
    exact iff_of_true ⟨c, x, hc', h.link⟩ (.inl rfl)
  · rw [or_iff_right heq]
    constructor
    · rintro ⟨d, o, hd, hlink⟩
      obtain rfl := Option.some.inj (hc'.symm.trans hd)
      exact ⟨c, o, hc, by rwa [h.links fun _ => heq] at hlink⟩
    · rintro ⟨d, o, hd, hlink⟩
      obtain rfl := Option.some.inj (hc.symm.trans hd)
      exact ⟨c, o, hc', by rwa [h.links fun _ => heq]⟩

end Relinks

end LinkTree
