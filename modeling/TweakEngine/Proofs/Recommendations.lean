/-
# Which tweaks are recommended

Recommendations are looked for among the tweaks that are neither hidden nor found applied
(`Program.unapplied`), in the order of the catalog, until there are enough.  Whether there are
enough is asked after a tweak was looked at, so one tweak is looked at even if none are wanted
(`Service.Looks`).  With a positive limit these are the first ones that suit
(`recommended_first`); otherwise the first tweak is recommended if it suits
(`sample_one_too_many`).  A tweak whose category is no text cannot be looked at.
-/

import TweakEngine.Proofs.StatusAge
import TweakEngine.Proofs.HiddenTweaks

namespace TweakEngine

variable {μ σ α : Type}

/-- A filter whose tests leave the state. -/
theorem Act.filterM_on {test : α → Act σ Bool} {q : α → Bool} {s : σ}
    (h : ∀ x, (test x).on s = (.ok (q x), s)) (xs : List α) :
    (xs.filterM test).on s = (.ok (xs.filter q), s) := by
  have haux : ∀ (xs kept : List α),
      (List.filterAuxM test xs kept).on s = (.ok ((xs.filter q).reverse ++ kept), s) := by
    intro xs
    induction xs with
    | nil => exact fun kept => rfl
    | cons x xs ih =>
      intro kept
      rw [List.filterAuxM, Act.on_bind_of_ok (h x), ih, List.filter_cons]
      cases q x <;> simp
  rw [List.filterM, Act.on_bind_of_ok (haux xs []), List.append_nil, Act.on_pure,
    List.reverse_reverse]

/-- The last scan found the tweak applied. -/
def Board.foundApplied (b : Board) (t : Tweak) : Bool :=
  (Assoc.get? t.key b.statuses).any Status.detectedApplied

/-- A tweak with what is kept of it. -/
def Program.itemOf (p : Program μ) (t : Tweak) : Item :=
  { tweak := t
    status := (Assoc.get? t.key p.board.statuses).getD
      (Status.notScanned t.id p.session.host.clock)
    pending := p.board.waiting? t.key }

/-- The tweaks that are neither hidden nor found applied. -/
def Program.unapplied (p : Program μ) (hidden : List String) (ts : List Tweak) : List Tweak :=
  ts.filter fun t => !hidden.contains (Text.fold t.id) && !p.board.foundApplied t

/-- A catalog that lists its tweaks stays. -/
def Desk.Shelved (d d' : Desk μ) : Prop := d.shelf.catalog.Stays d'.shelf.catalog

theorem Desk.Shelved.refl (d : Desk μ) : Shelved d d := Catalog.Stays.refl _

namespace Service

open Program

variable {s : Service μ} {p p' : Program μ} {ts before after : List Tweak} {t : Tweak}
  {hidden : List String} {limit : Int} {chosen : List Tweak} {items : List Item}

/-! ## Looking for recommendations -/

/-- The tweak is in a recommended category or of no high severity. -/
def suits (t : Tweak) : Bool :=
  (t.category.text?.any fun c => recommendedCategories.contains (Text.fold c)) ||
    t.severity ≤ .medium

/-- The tweak after these ones is looked at: it is the first one, or not enough of these suit. -/
def Looks (limit : Int) (before : List Tweak) : Prop :=
  before = [] ∨ ((before.filter suits).length : Int) < limit

/-- The tweaks that are recommended: the first ones that suit.  The first tweak of all is taken if
it suits, even when none are wanted. -/
def firstSuited (limit : Int) (ts : List Tweak) : List Tweak :=
  if 1 ≤ limit then (ts.filter suits).take limit.toNat else (ts.take 1).filter suits

/-- The tweaks of items that are not found applied. -/
def unappliedOf (items : List Item) : List Tweak :=
  (items.filter fun i => !i.status.detectedApplied).map Item.tweak

theorem isRecommended_eq (t : Tweak) : isRecommended t = match t.category.text? with
    | some _ => .ok (suits t)
    | none => .error (Failure.lacks t.category "casefold") := by
  unfold isRecommended suits
  cases t.category <;> rfl

theorem recommendFrom_applied {i : Item} (h : i.status.detectedApplied = true) (rest : List Item) :
    recommendFrom limit chosen (i :: rest) = recommendFrom limit chosen rest := by
  rw [recommendFrom, if_pos h]

theorem recommendFrom_other {i : Item} (h : ¬i.status.detectedApplied = true)
    (hother : i.tweak.category.text? = none) (rest : List Item) :
    recommendFrom limit chosen (i :: rest) =
      .error (Failure.lacks i.tweak.category "casefold") := by
  rw [recommendFrom, if_neg h, isRecommended_eq, hother]
  rfl

/-- One tweak more, and the question whether there are enough. -/
theorem recommendFrom_text {i : Item} (h : ¬i.status.detectedApplied = true)
    (htext : i.tweak.category.text? ≠ none) (rest : List Item) :
    recommendFrom limit chosen (i :: rest) =
      if limit ≤ ((chosen ++ [i.tweak].filter suits).length : Int)
      then .ok (chosen ++ [i.tweak].filter suits)
      else recommendFrom limit (chosen ++ [i.tweak].filter suits) rest := by
  obtain ⟨c, hc⟩ := Option.ne_none_iff_exists'.mp htext
  rw [recommendFrom, if_neg h, isRecommended_eq, hc, List.filter_singleton]
  dsimp only
  rw [ok_bind]
  cases suits i.tweak with
  | true => rfl
  | false =>
    rw [cond_false, List.append_nil]
    rfl

theorem unappliedOf_applied {i : Item} (h : i.status.detectedApplied = true) (rest : List Item) :
    unappliedOf (i :: rest) = unappliedOf rest := by
  rw [unappliedOf, List.filter_cons_of_neg (by rw [h]; exact Bool.false_ne_true)]
  rfl

theorem unappliedOf_cons {i : Item} (h : ¬i.status.detectedApplied = true) (rest : List Item) :
    unappliedOf (i :: rest) = i.tweak :: unappliedOf rest := by
  rw [unappliedOf, List.filter_cons_of_pos (by rw [Bool.not_eq_true] at h; rw [h]; rfl)]
  rfl

/-- With those chosen before, and those among further ones that suit, there are not enough yet. -/
def TooFew (limit : Int) (chosen before : List Tweak) : Prop :=
  ((chosen ++ before.filter suits).length : Int) < limit

theorem tooFew_nil : TooFew limit chosen [] ↔ (chosen.length : Int) < limit := by
  rw [TooFew, List.filter_nil, List.append_nil]

theorem tooFew_cons :
    TooFew limit chosen (t :: before) ↔ TooFew limit (chosen ++ [t].filter suits) before := by
  rw [TooFew, TooFew, ← List.singleton_append, List.filter_append, List.append_assoc]

/-- There were not enough earlier either. -/
theorem TooFew.earlier (h : TooFew limit chosen before) : TooFew limit chosen [] := by
  rw [tooFew_nil]
  rw [TooFew, List.length_append] at h
  omega

/-- While there are not enough, those that suit are added until there are. -/
theorem recommendFrom_returns (hfew : TooFew limit chosen [])
    (htext : ∀ before t after, unappliedOf items = before ++ t :: after →
      TooFew limit chosen before → t.category.text? ≠ none) :
    recommendFrom limit chosen items = .ok (chosen ++
      ((unappliedOf items).filter suits).take (limit - chosen.length).toNat) := by
  induction items generalizing chosen with
  | nil => simp [recommendFrom, unappliedOf]
  | cons i rest ih =>
    by_cases happlied : i.status.detectedApplied = true
    · rw [unappliedOf_applied happlied] at htext ⊢
      rw [recommendFrom_applied happlied]
      exact ih hfew htext
    rw [unappliedOf_cons happlied] at htext ⊢
    rw [recommendFrom_text happlied (htext [] i.tweak _ rfl hfew)]
    have hrest := fun hfew => @ih (chosen ++ [i.tweak].filter suits) hfew
      fun before t after hsplit hmore =>
        htext (i.tweak :: before) t after (by rw [hsplit]; rfl) (tooFew_cons.mpr hmore)
    have hone : ([i.tweak].filter suits).length ≤ 1 := List.length_filter_le _ _
    have hfilter : (i.tweak :: unappliedOf rest).filter suits =
        [i.tweak].filter suits ++ (unappliedOf rest).filter suits := List.filter_append [_] _
    rw [hfilter]
    generalize [i.tweak].filter suits = new at hone hrest ⊢
    have hlength : ((chosen ++ new).length : Int) = chosen.length + new.length := by
      rw [List.length_append]; rfl
    rw [tooFew_nil] at hfew hrest
    have htake : (limit - (chosen ++ new).length).toNat =
        (limit - chosen.length).toNat - new.length := by omega
    rw [List.take_append, List.take_of_length_le (by omega), ← htake, ← List.append_assoc]
    split
    · next henough =>
      rw [Int.toNat_of_nonpos (by omega), List.take_zero, List.append_nil]
    · next hmore => exact hrest (Int.not_le.mp hmore)

/-- A tweak whose category is no text ends the search when it is looked at. -/
theorem recommendFrom_fails (hsplit : unappliedOf items = before ++ t :: after)
    (hlooks : before = [] ∨ TooFew limit chosen before)
    (htext : ∀ u ∈ before, u.category.text? ≠ none) (ht : t.category.text? = none) :
    recommendFrom limit chosen items = .error (Failure.lacks t.category "casefold") := by
  induction items generalizing chosen before with
  | nil => exact absurd hsplit.symm (List.append_ne_nil_of_right_ne_nil _ nofun)
  | cons i rest ih =>
    by_cases happlied : i.status.detectedApplied = true
    · rw [unappliedOf_applied happlied] at hsplit
      rw [recommendFrom_applied happlied]
      exact ih hsplit hlooks htext
    rw [unappliedOf_cons happlied] at hsplit
    cases before with
    | nil =>
      obtain ⟨rfl, -⟩ := List.cons.inj hsplit
      exact recommendFrom_other happlied ht rest
    | cons u before =>
      obtain ⟨hu, hrest⟩ := List.cons.inj hsplit
      have hmore := hlooks.resolve_left nofun
      rw [← hu] at hmore htext
      rw [tooFew_cons] at hmore
      rw [recommendFrom_text happlied (htext _ List.mem_cons_self),
        if_neg (Int.not_le.mpr (tooFew_nil.mp hmore.earlier))]
      exact ih hrest (.inr hmore) fun v hv => htext v (List.mem_cons_of_mem _ hv)

/-- With no room for any, the first tweak is looked at all the same. -/
theorem recommendFrom_once (hlimit : limit ≤ 0)
    (htext : ∀ t after, unappliedOf items = t :: after → t.category.text? ≠ none) :
    recommendFrom limit [] items = .ok (((unappliedOf items).take 1).filter suits) := by
  induction items with
  | nil => rfl
  | cons i rest ih =>
    by_cases happlied : i.status.detectedApplied = true
    · rw [unappliedOf_applied happlied] at htext ⊢
      rw [recommendFrom_applied happlied]
      exact ih htext
    rw [unappliedOf_cons happlied] at htext ⊢
    rw [recommendFrom_text happlied (htext _ _ rfl), List.nil_append, if_pos (by omega)]
    rfl

/-- **The first tweaks that suit** are found when every tweak that is looked at has a text as its
category. -/
theorem recommendFrom_first (htext : ∀ before t after, unappliedOf items = before ++ t :: after →
      Looks limit before → t.category.text? ≠ none) :
    recommendFrom limit [] items = .ok (firstSuited limit (unappliedOf items)) := by
  unfold firstSuited
  split
  · next hlimit =>
    have hfew : TooFew limit [] [] := tooFew_nil.mpr hlimit
    rw [recommendFrom_returns hfew fun before t after hsplit hmore =>
      htext before t after hsplit (.inr hmore), List.nil_append, List.length_nil]
    simp
  · next hlimit =>
    exact recommendFrom_once (by omega) fun t after hsplit => htext [] t after hsplit (.inl rfl)

/-! ## The tweaks of a program -/

/-- The program whose statuses are listed: they are looked at first unless they are fresh. -/
def lookedOver (s : Service μ) (p : Program μ) : Program μ :=
  if p.board.isFresh p.session.host.clock then p else (s.refresh.on p).2

/-- Looking at all tweaks leaves a catalog that lists its tweaks. -/
theorem refresh_stays (w : Watcher μ) : (Desk.refresh w).Along Desk.Shelved := by
  have htweaks : (Desk.onShelf Catalog.tweaks : Act (Desk μ) _).Along Desk.Shelved := by
    intro d h
    obtain ⟨ts, hts⟩ := Option.ne_none_iff_exists'.mp h
    have hon : Catalog.tweaks.on (Desk.shelfPart.get d) = (.ok ts, d.shelf) :=
      Catalog.tweaks_on_listed hts
    rw [Desk.onShelf, Part.on_lift, hon]
    rfl
  have hscan : (Desk.scan w).attempt.Along Desk.Shelved :=
    Act.Along.bind (Q := Desk.Shelved) Catalog.Stays.trans htweaks fun ts => Desk.Shelved.refl
  refine Act.Along.bind (Q := Desk.Shelved) Catalog.Stays.trans hscan fun r => ?_
  cases r with
  | error f => exact Desk.Shelved.refl
  | ok found => exact Desk.Shelved.refl

/-- A catalog that lists its tweaks still does once they have been looked at. -/
theorem tweaks_on_lookedOver (s : Service μ) (h : p.catalog.listed? = some ts) :
    (onShelf Catalog.tweaks).on (s.lookedOver p) = (.ok ts, s.lookedOver p) := by
  have hlisted : (s.lookedOver p).catalog.listed? = some ts := by
    unfold lookedOver
    split
    · exact h
    · have hstays : (s.refresh.on p).2.catalog = p.catalog :=
        refresh_stays s.detector.watcher (deskPart.get p) (h ▸ nofun)
      rw [hstays, h]
  have hon : Catalog.tweaks.on (shelfPart.get (s.lookedOver p)) =
      (.ok ts, shelfPart.get (s.lookedOver p)) := Catalog.tweaks_on_listed hlisted
  rw [onShelf, Part.on_lift, hon]
  rfl

/-- Looking at all tweaks leaves the configuration. -/
theorem lookedOver_config (s : Service μ) (p : Program μ) :
    (s.lookedOver p).config = p.config := by
  unfold lookedOver
  split <;> rfl

/-- All tweaks are listed with what is kept of them once they have been looked at. -/
theorem deskItems_on (hts : (onShelf Catalog.tweaks).on (s.lookedOver p) = (.ok ts, p')) :
    (onDesk (Desk.items s.detector.watcher)).on p = (.ok (ts.map p'.itemOf), p') := by
  obtain ⟨d, hover, hitems⟩ : ∃ d, s.lookedOver p = deskPart.set d p ∧
      (Desk.items s.detector.watcher).on (deskPart.get p) = Desk.shown.on d := by
    have hfresh : p.board.isFresh p.session.host.clock =
        (deskPart.get p).board.isFresh (deskPart.get p).clock := rfl
    rw [Desk.items_on, lookedOver, hfresh]
    split <;> exact ⟨_, rfl, rfl⟩
  rw [hover] at hts
  obtain ⟨sh, hsh, rfl⟩ := Part.ok_of_on_lift hts
  have hlist : (Desk.onShelf Catalog.tweaks).on d = (.ok ts, { d with shelf := sh }) := by
    rw [Desk.onShelf, Part.on_lift]
    exact congrArg (fun r : _ × Shelf μ => (r.1, { d with shelf := r.2 })) hsh
  rw [onDesk, Part.on_lift, hitems, Desk.shown, Act.on_bind_of_ok hlist]
  rfl

/-- **The items of a program** are those of the tweaks that are not hidden. -/
theorem items_on (hts : (onShelf Catalog.tweaks).on (s.lookedOver p) = (.ok ts, p'))
    (hhidden : p.config.hidden = .ok hidden) : s.items.on p =
      (.ok ((ts.map p'.itemOf).filter fun i => !hidden.contains (Text.fold i.tweak.id)), p') := by
  have hconfig : p'.config = p.config := by
    rw [← lookedOver_config s p]
    obtain ⟨sh, -, rfl⟩ := Part.ok_of_on_lift hts
    rfl
  refine (Act.on_bind_of_ok (deskItems_on hts)).trans (Act.filterM_on (fun i => ?_) _)
  have hdisabled : p'.config.isDisabled i.tweak.id =
      .ok (hidden.contains (Text.fold i.tweak.id)) := by
    rw [hconfig, Config.isDisabled, hhidden]
    rfl
  rw [Act.on_bind, isDisabled_on, hdisabled]
  rfl

theorem foundApplied_itemOf (p : Program μ) (t : Tweak) :
    (p.itemOf t).status.detectedApplied = p.board.foundApplied t := by
  unfold itemOf Board.foundApplied
  dsimp only
  cases Assoc.get? t.key p.board.statuses <;> rfl

theorem unappliedOf_itemOf (p : Program μ) (hidden : List String) (ts : List Tweak) :
    unappliedOf ((ts.map p.itemOf).filter fun i => !hidden.contains (Text.fold i.tweak.id)) =
      p.unapplied hidden ts := by
  rw [unappliedOf, List.filter_filter, List.filter_map, List.map_map]
  have htweak : Item.tweak ∘ p.itemOf = id := rfl
  rw [htweak, List.map_id, unapplied]
  refine List.filter_congr fun t _ => ?_
  rw [Function.comp_apply, foundApplied_itemOf, Bool.and_comm]
  rfl

/-- **Recommendations are the first tweaks that suit**, for every limit, among those that are
neither hidden nor found applied once the tweaks have been looked at.  A tweak whose category is no
text ends this with a failure when it is looked at. -/
theorem recommended_first (s : Service μ)
    (hts : (onShelf Catalog.tweaks).on (s.lookedOver p) = (.ok ts, p'))
    (hhidden : p.config.hidden = .ok hidden) (limit : Int) :
    ((∀ before t after, p'.unapplied hidden ts = before ++ t :: after → Looks limit before →
        t.category.text? ≠ none) →
      (s.recommended limit).on p = (.ok (firstSuited limit (p'.unapplied hidden ts)), p')) ∧
    ∀ before t after, p'.unapplied hidden ts = before ++ t :: after → Looks limit before →
      (∀ u ∈ before, u.category.text? ≠ none) → t.category.text? = none →
        (s.recommended limit).on p = (.error (Failure.lacks t.category "casefold"), p') := by
  have hon := Act.on_bind_of_ok (k := fun items => Act.result (recommendFrom limit [] items))
    (items_on hts hhidden)
  rw [← unappliedOf_itemOf]
  constructor
  · intro htext
    exact hon.trans (congrArg (Prod.mk · p') (recommendFrom_first htext))
  · intro before t after hsplit hlooks hbefore ht
    exact hon.trans (congrArg (Prod.mk · p') (recommendFrom_fails hsplit hlooks hbefore ht))

end Service

/-- A tweak in a recommended category. -/
def privacyTweak : Tweak :=
  { sampleSetting "a" with category := .text "Privacy", severity := .high }

/-- A tweak of high severity. -/
def criticalTweak : Tweak := { sampleSetting "b" with severity := .critical }

/-- A tweak whose category is no text. -/
def misfiledTweak : Tweak := { sampleSetting "c" with category := .int 5 }

def recommendingProgram : Program Machine :=
  { sampleProgram with catalog := .memory [privacyTweak, criticalTweak, misfiledTweak] }

/-- The first tweak is recommended, and the search for a second one fails. -/
theorem sample_first_suited :
    ∃ p', (sampleService.recommended 1).on recommendingProgram = (.ok [privacyTweak], p') ∧
      (sampleService.recommended 2).on recommendingProgram =
        (.error (Failure.lacks misfiledTweak.category "casefold"), p') := by
  have hlisted : recommendingProgram.catalog.listed? =
      some [privacyTweak, criticalTweak, misfiledTweak] := rfl
  have hhidden : recommendingProgram.config.hidden = .ok [] := rfl
  have hsuits : Service.suits privacyTweak = true := by decide +kernel
  have hcritical : Service.suits criticalTweak = false := by decide +kernel
  have hdue : (sampleService.lookedOver recommendingProgram).unapplied []
      [privacyTweak, criticalTweak, misfiledTweak] =
        [privacyTweak, criticalTweak, misfiledTweak] := by
    refine List.filter_eq_self.mpr ?_
    decide +kernel
  have hfirst := sampleService.recommended_first
    (sampleService.tweaks_on_lookedOver hlisted) hhidden
  rw [hdue] at hfirst
  have hone := (hfirst 1).1 fun before t after hsplit hlooks => by
    cases before with
    | nil =>
      obtain ⟨rfl, -⟩ := List.cons.inj hsplit
      exact nofun
    | cons u before =>
      obtain ⟨rfl, -⟩ := List.cons.inj hsplit
      have hfew := hlooks.resolve_left nofun
      rw [List.filter_cons_of_pos hsuits, List.length_cons] at hfew
      omega
  have hlooks : Service.Looks 2 [privacyTweak, criticalTweak] := by
    right
    simp [List.filter, hsuits, hcritical]
  have htwo := (hfirst 2).2 [privacyTweak, criticalTweak] misfiledTweak [] rfl hlooks
    (by simp [privacyTweak, criticalTweak, sampleSetting, Datum.text?]) rfl
  have hsuited : Service.firstSuited 1 [privacyTweak, criticalTweak, misfiledTweak] =
      [privacyTweak] := by
    rw [Service.firstSuited, if_pos (by decide), List.filter_cons_of_pos hsuits]
    rfl
  rw [hsuited] at hone
  exact ⟨_, hone, htwo⟩

/-- None are wanted, and the first tweak is recommended. -/
theorem sample_one_too_many : ∃ ts p', (sampleService.recommended 0).on recommendingProgram =
    (.ok ts, p') ∧ ts.map Tweak.id = ["a"] := by
  have hone : (sampleService.recommended 0).succeeds recommendingProgram
      (fun ts _ => ts.map Tweak.id == ["a"]) = true := by
    decide +kernel
  obtain ⟨ts, p', h, htest⟩ := Act.of_succeeds hone
  exact ⟨ts, p', h, beq_iff_eq.mp htest⟩

end TweakEngine
