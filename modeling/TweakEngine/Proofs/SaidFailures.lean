/-
# Failures that are only said

An action gives a result (`Act.Returns`), or whatever goes wrong with it is of one sort
(`Act.FailsOnly`).  Looking at the disk and writing to it fails only in ways that the reading
and the writing of snapshots let pass into a message.  The captures of a snapshot can fail in
other ways, too: a value that is no object has no fields, and an infinite number is no byte.
`Snapshot.Shaped` keeps these two away, and such a snapshot does no harm, whatever its captures
say (`Snapshot.Shaped.harmless`).
-/

import TweakEngine.Proofs.BrokenFiles
import TweakEngine.Snapshot.Store

namespace TweakEngine

/-! ## Actions that give a result -/

namespace Act

variable {σ α β : Type} {s t : σ} {caught : Failure → Bool}

/-- The action gives a result. -/
def Returns (a : Act σ α) (s : σ) : Prop := ∃ x t, a.on s = (.ok x, t)

/-- Whatever goes wrong is of one sort. -/
def FailsOnly (caught : Failure → Bool) (a : Act σ α) (s : σ) : Prop :=
  ∀ f, (a.on s).1 = .error f → caught f = true

theorem returns_after {a : Act σ α} {k : α → Act σ β} {x : α} (h : a.on s = (.ok x, t)) :
    (a >>= k).Returns s ↔ (k x).Returns t := by rw [Returns, Returns, on_bind_of_ok h]

theorem returns_bind {a : Act σ α} {k : α → Act σ β} :
    (a >>= k).Returns s ↔ ∃ x t, a.on s = (.ok x, t) ∧ (k x).Returns t := by
  constructor
  · rintro ⟨y, u, h⟩
    obtain ⟨x, t, ha, hk⟩ := ok_of_on_bind h
    exact ⟨x, t, ha, y, u, hk⟩
  · rintro ⟨x, t, ha, hk⟩
    exact (returns_after ha).mpr hk

/-- What always gives a result may be left out. -/
theorem returns_before {a : Act σ α} {k : α → Act σ β} (hk : ∀ x t, (k x).Returns t) :
    (a >>= k).Returns s ↔ a.Returns s := by
  rcases h : a.on s with ⟨f | x, t⟩
  · rw [Returns, Returns, on_bind, h]
    exact ⟨fun ⟨_, _, h⟩ => (nomatch h), fun ⟨_, _, h⟩ => (nomatch h)⟩
  · exact ⟨fun _ => ⟨x, t, h⟩, fun _ => (returns_after h).mpr (hk x t)⟩

theorem not_returns_of_fails {a : Act σ α} (h : a.fails s (fun _ _ => true) = true) :
    ¬a.Returns s := by
  obtain ⟨f, t, hf, -⟩ := of_fails h
  rintro ⟨x, u, hx⟩
  cases hf.symm.trans hx

theorem failsOnly_after {a : Act σ α} {k : α → Act σ β} {x : α} (h : a.on s = (.ok x, t)) :
    FailsOnly caught (a >>= k) s ↔ FailsOnly caught (k x) t := by
  rw [FailsOnly, FailsOnly, on_bind_of_ok h]

/-- When the first part fails, so does the sequence. -/
theorem failsOnly_bind_error {a : Act σ α} {k : α → Act σ β} {f : Failure}
    (h : (a.on s).1 = .error f) : FailsOnly caught (a >>= k) s ↔ caught f = true := by
  rw [FailsOnly, on_bind]
  revert h
  rcases a.on s with ⟨r, t⟩
  rintro rfl
  exact ⟨fun h => h f rfl, fun h g hg => by cases hg; exact h⟩

theorem failsOnly_pure (x : α) (s : σ) : FailsOnly caught (pure x) s := fun f hf => by cases hf

theorem failsOnly_lift {S : Type} {p : Part S σ} {a : Act σ α} {s : S}
    (h : FailsOnly caught a (p.get s)) : FailsOnly caught (p.lift a) s := h

theorem failsOnly_discard {a : Act σ α} : FailsOnly caught (discard a) s ↔ FailsOnly caught a s := by
  rw [FailsOnly, FailsOnly, on_discard]
  rcases a.on s with ⟨f | x, t⟩
  · exact ⟨fun h g hg => h g (by cases hg; rfl), fun h g hg => h g (by cases hg; rfl)⟩
  · exact iff_of_true (failsOnly_pure _ _) (failsOnly_pure _ _)

theorem FailsOnly.bind {a : Act σ α} {k : α → Act σ β} (ha : FailsOnly caught a s)
    (hk : ∀ x t, a.on s = (.ok x, t) → FailsOnly caught (k x) t) : FailsOnly caught (a >>= k) s := by
  rcases h : a.on s with ⟨f | x, t⟩
  · exact (failsOnly_bind_error (by rw [h])).mpr (ha f (by rw [h]))
  · exact (failsOnly_after h).mpr (hk x t h)

/-- What never fails may be left out. -/
theorem failsOnly_before {a : Act σ α} {k : α → Act σ β} (hk : ∀ x t, FailsOnly caught (k x) t) :
    FailsOnly caught (a >>= k) s ↔ FailsOnly caught a s :=
  ⟨fun h _ hf => (failsOnly_bind_error hf).mp h, fun h => h.bind fun x t _ => hk x t⟩

/-- What is given in spite of the catching is what the action gives. -/
theorem ok_of_rescue {a : Act σ α} {x : α} (h : (a.rescue caught).on s = (.ok (.ok x), t)) :
    a.on s = (.ok x, t) := by
  rw [Act.rescue, on_bind, on_attempt] at h
  revert h
  rcases a.on s with ⟨f | y, u⟩ <;> intro h
  · dsimp only at h
    split at h <;> cases h
  · cases h
    rfl

/-- Catching failures of one sort gives a result when there are no others. -/
theorem rescue_returns {a : Act σ α} : (a.rescue caught).Returns s ↔ FailsOnly caught a s := by
  rw [Returns, FailsOnly, Act.rescue, on_bind, on_attempt]
  rcases a.on s with ⟨f | x, t⟩
  · dsimp only
    cases hf : caught f with
    | true => exact ⟨fun _ g hg => by cases hg; exact hf, fun _ => ⟨_, _, rfl⟩⟩
    | false =>
      refine ⟨fun h => ?_, fun h => absurd ((h f rfl).symm.trans hf) (by decide)⟩
      obtain ⟨_, _, h⟩ := h
      cases h
  · exact iff_of_true ⟨_, _, rfl⟩ (failsOnly_pure _ _)

end Act

/-! ## Failures of the disk -/

/-- Failures of writing a snapshot that are only said. -/
def Failure.isWritingFault (f : Failure) : Bool := f.isSystem || f.isValue

/-- Failures of reading a snapshot that are only said. -/
def Failure.isReadingFault (f : Failure) : Bool := f.isSystem || f.isValue || f.isDeclared

theorem Failure.isReadingFault_of_writing {f : Failure} (h : f.isWritingFault = true) :
    f.isReadingFault = true := by
  unfold isWritingFault at h
  rw [isReadingFault, h, Bool.true_or]

namespace Disk

variable {d : Disk} {p : Path} {f : Failure}

/-- What has no location is no path at all, or the platform says why. -/
theorem locate_error (h : d.locate p = .error f) :
    (∃ text, f = .badValue text) ∨ ∃ e, f = .system e := by
  unfold locate at h
  split at h
  · cases h
    exact .inl ⟨_, rfl⟩
  split at h
  · cases h
    exact .inr ⟨_, rfl⟩
  · revert h
    cases d.follow (if p.isAbsolute then [] else d.here) p.parts with
    | ok loc => exact nofun
    | error k => intro h; cases h; exact .inr ⟨_, rfl⟩

theorem locate_fault (h : d.locate p = .error f) : f.isWritingFault = true := by
  obtain ⟨text, rfl⟩ | ⟨e, rfl⟩ := locate_error h <;> rfl

theorem look_fault (h : d.look p = .error f) : f.isSystem = true := by
  unfold look at h
  split at h
  · cases h
  · cases h
  · split at h <;> cases h
    rfl
  · next hbad hsystem hloc =>
    obtain ⟨text, rfl⟩ | ⟨e, rfl⟩ := locate_error hloc
    · exact absurd rfl (hbad text)
    · exact absurd rfl (hsystem e)

/-- Where a value can be read, something stands. -/
theorem present_of_readJson {x : Datum} (h : ((readJson p).on d).1 = .ok x) :
    (present p).on d = (.ok true, d) := by
  obtain ⟨text, d₁, htext, -⟩ := Act.ok_of_on_bind (Prod.ext h rfl)
  obtain ⟨bytes, d₂, hbytes, -⟩ := Act.ok_of_on_bind htext
  obtain ⟨loc, d₃, hloc, hbytes⟩ := Act.ok_of_on_bind hbytes
  obtain ⟨hlocate, rfl⟩ := Prod.mk.inj hloc
  rw [Act.on_bind, Act.on_view] at hbytes
  rw [present, Act.on_of, look, hlocate]
  dsimp only at hbytes ⊢
  cases hat : d.at? loc with
  | none => rw [hat] at hbytes; cases hbytes
  | some entry => rfl

section

variable {α : Type} {caught : Failure → Bool}

theorem failsOnly_refuse (hsystem : ∀ f, f.isSystem = true → caught f = true)
    (kind : SystemErrorKind) (p : Path) : Act.FailsOnly caught (refuse kind p : Act Disk α) d :=
  fun f h => hsystem f (by cases h; rfl)

theorem failsOnly_present (hsystem : ∀ f, f.isSystem = true → caught f = true) (p : Path) (d : Disk) :
    Act.FailsOnly caught (present p) d := by
  intro f h
  rw [present, Act.on_of] at h
  cases hlook : d.look p with
  | error e => rw [hlook] at h; cases h; exact hsystem _ (look_fault hlook)
  | ok x => rw [hlook] at h; cases h

theorem locate_of_present (h : ((present p).on d).1 = .ok true) : ∃ loc, d.locate p = .ok loc := by
  rw [present, Act.on_of, look] at h
  cases hloc : d.locate p with
  | ok loc => exact ⟨loc, rfl⟩
  | error f =>
    rw [hloc] at h
    obtain ⟨text, rfl⟩ | ⟨e, rfl⟩ := locate_error hloc
    · cases h
    · dsimp only at h
      split at h <;> cases h

theorem failsOnly_locating {k : List String → Act Disk α}
    (hloc : ∀ f, d.locate p = .error f → caught f = true)
    (hk : ∀ loc, Act.FailsOnly caught (k loc) d) : Act.FailsOnly caught (locating p >>= k) d :=
  .bind (fun f h => hloc f h) fun loc d' h => by
    obtain ⟨-, rfl⟩ := Prod.mk.inj h
    exact hk loc

theorem failsOnly_readBytes (hsystem : ∀ f, f.isSystem = true → caught f = true)
    (hloc : ∀ f, d.locate p = .error f → caught f = true) :
    Act.FailsOnly caught (readBytes p) d := by
  refine failsOnly_locating hloc fun loc => (Act.failsOnly_after (Act.on_view _ _)).mpr ?_
  split
  · exact Act.failsOnly_pure _ _
  · exact failsOnly_refuse hsystem _ _
  · exact failsOnly_refuse hsystem _ _

/-- Writing a value that has a form in JSON. -/
theorem failsOnly_writeJson (hsystem : ∀ f, f.isSystem = true → caught f = true)
    (hloc : ∀ f, d.locate p = .error f → caught f = true) {x : Datum} (hx : Json.foreign? x = none) :
    Act.FailsOnly caught (writeJson p x) d := by
  unfold writeJson
  rw [hx]
  refine .bind (failsOnly_locating hloc fun loc => (Act.failsOnly_after (Act.on_view _ _)).mpr ?_)
    fun _ s _ => Act.failsOnly_pure _ s
  split
  · exact failsOnly_refuse hsystem _ _
  · exact Act.failsOnly_pure _ _

theorem failsOnly_unlink (hsystem : ∀ f, f.isSystem = true → caught f = true)
    (hloc : ∀ f, d.locate p = .error f → caught f = true) :
    Act.FailsOnly caught (unlink p) d := by
  refine failsOnly_locating hloc fun loc => (Act.failsOnly_after (Act.on_view _ _)).mpr ?_
  split
  · exact failsOnly_refuse hsystem _ _
  · exact failsOnly_refuse hsystem _ _
  · exact Act.failsOnly_pure _ _

end

/-- Whatever a file holds, reading it as JSON fails only in ways that are only said. -/
theorem failsOnly_readJson (p : Path) (d : Disk) :
    Act.FailsOnly Failure.isWritingFault (readJson p) d := by
  have hsystem : ∀ f : Failure, f.isSystem = true → f.isWritingFault = true := fun f h => by
    rw [Failure.isWritingFault, h, Bool.true_or]
  refine .bind (.bind (failsOnly_readBytes hsystem fun f => locate_fault) ?_) ?_
  · intro bytes d' _ f h
    change textOf bytes = .error f at h
    unfold textOf at h
    split at h <;> cases h
    rfl
  · intro text d' _ f h
    obtain ⟨fault, rfl⟩ | ⟨digits, rfl⟩ := Catalog.fault_of_read h <;> rfl

end Disk

/-! ## Snapshots that do no harm -/

/-- Whatever goes wrong with a result is of one sort. -/
def Failure.Only {α : Type} (caught : Failure → Bool) (r : Except Failure α) : Prop :=
  ∀ f, r = .error f → caught f = true

namespace Failure.Only

variable {α β : Type} {caught : Failure → Bool} {r : Except Failure α}

theorem ok (x : α) : Only caught (.ok x : Except Failure α) := nofun

theorem error {f : Failure} (hf : caught f = true) : Only caught (.error f : Except Failure α) :=
  fun _ h => Except.error.inj h ▸ hf

theorem bind {k : α → Except Failure β} (hr : Only caught r) (hk : ∀ x, Only caught (k x)) :
    Only caught (r >>= k) := by
  cases r with
  | error f => exact error (hr f rfl)
  | ok x => exact hk x

theorem map (g : α → β) (hr : Only caught r) : Only caught (g <$> r) := by
  cases r with
  | error f => exact error (hr f rfl)
  | ok x => exact ok _

theorem mapM {read : α → Except Failure β} : ∀ {xs : List α}, (∀ x ∈ xs, Only caught (read x)) →
    Only caught (xs.mapM read)
  | [], _ => ok _
  | x :: xs, h => by
    rw [List.mapM_cons]
    exact bind (h x List.mem_cons_self) fun _ =>
      bind (mapM fun x' hx' => h x' (List.mem_cons_of_mem _ hx')) fun _ => ok _

/-- A fault of a definition is one of those that are only said. -/
theorem of_malformed (h : Malformed.Only r) : Only isReadingFault r := by
  intro f hf
  obtain ⟨cause, rfl⟩ := h f hf
  rfl

end Failure.Only

open Failure

namespace Datum

/-- The value is an object. -/
def IsObject (d : Datum) : Prop := ∃ fields, d = .object fields

/-- No item of the value is an infinite number. -/
def Bounded : Datum → Prop
  | .list items | .tuple items => ∀ x, .float x ∈ items → Decimal.isInfinite x = false
  | _ => True

theorem toInt_only {d : Datum} (h : ∀ x, d = .float x → Decimal.isInfinite x = false) :
    Only (fun f => !(f matches .overflow _)) d.toInt := by
  have hmap : ∀ (shown : String) (r : Except Decimal.NumeralError Int),
      Only (fun f => !(f matches .overflow _)) (r.mapError (intRefusal shown)) := by
    intro shown r
    cases r with
    | ok n => exact .ok n
    | error e => cases e <;> exact .error rfl
  cases d with
  | float x =>
    unfold toInt
    dsimp only
    split
    · exact .ok _
    · rw [h x rfl]
      exact .error rfl
  | text s => exact hmap _ _
  | bytes bs => exact hmap _ _
  | bool | int => exact .ok _
  | null | list | object | tuple | registry => exact .error rfl

end Datum

namespace RegistryValue

theorem bytesOf_only {items : List Datum}
    (h : ∀ x, .float x ∈ items → Decimal.isInfinite x = false) :
    Only isReadingFault (bytesOf items) := by
  have hbytes : Only (fun f => !(f matches .overflow _)) (items.mapM byteOf) := by
    refine .mapM fun d hd => (Datum.toInt_only fun x hx => h x (hx ▸ hd)).bind fun n => ?_
    split
    · exact .ok _
    · exact .error rfl
  unfold bytesOf
  split
  · exact .ok _
  · next heq => exact nomatch hbytes _ heq
  · exact .error rfl

/-- Only an infinite number among bytes has a failure that is not said. -/
theorem coercePlain_only {raw : Datum} (h : raw.Bounded) (kind : ValueKind) :
    Only isReadingFault (coercePlain raw kind) := by
  have hinteger : Only isReadingFault (integerOf raw kind) := by
    unfold integerOf
    repeat' split
    all_goals first | exact .ok _ | exact .error rfl
  have hwide : ∀ n, isReadingFault (tooWide n kind) = true := by
    intro n
    unfold tooWide
    split <;> rfl
  unfold coercePlain
  cases kind with
  | dword | qword =>
    refine hinteger.bind fun n => ?_
    split
    · exact .ok _
    · exact .error (hwide n)
  | binary =>
    cases raw with
    | list items | tuple items => exact (bytesOf_only h).bind fun _ => .ok _
    | text s => dsimp only; split <;> first | exact .ok _ | exact .error rfl
    | bytes => exact .ok _
    | _ => exact .error rfl
  | string | expandString | multiString =>
    cases raw <;> first | exact .ok _ | exact .error rfl

theorem coerce_only {raw : Datum} (h : raw.Bounded) (kind : ValueKind) :
    Only isReadingFault (coerce raw kind) := by
  have hpayload : ∀ v : RegistryValue, v.payload.Bounded := by
    intro v
    cases v with
    | multiString lines => exact fun x hx => by simp at hx
    | _ => trivial
  unfold coerce
  split
  · exact .ok _
  · exact (coercePlain_only (hpayload _) kind).map _
  · exact (coercePlain_only h kind).map _

end RegistryValue

namespace Snapshot

open Store

/-- The value of a snapshot file is made of objects, and no infinite number stands among the
bytes of a registry value. -/
structure Shaped (d : Datum) : Prop where
  object : d.IsObject
  parts : ∀ name ∈ ["registry", "services", "files"], ∀ p, d.field? name = some p →
    ∃ captures, p = .object captures ∧ ∀ c ∈ captures, c.2.IsObject
  bounded : ∀ captures, d.field? "registry" = some (.object captures) → ∀ c ∈ captures,
    ∀ raw, c.2.field? "original_value" = some raw → raw.Bounded

/-- Reading the captures of a tweak from a value fails only in ways that are only said. -/
def Harmless (t : Tweak) (d : Datum) : Prop :=
  Act.FailsOnly isReadingFault (restoreAll t d) {}

theorem registryCapture_only {d : Datum} (hd : d.IsObject)
    (hraw : ∀ raw, d.field? "original_value" = some raw → raw.Bounded) (op : RegistryOperation) :
    Only isReadingFault (registryCapture op d) := by
  obtain ⟨fields, rfl⟩ := hd
  unfold registryCapture
  rw [show fieldOf (.object fields) "original_value" = .ok _ from rfl, ok_bind]
  dsimp only
  split
  · exact .ok _
  · next hnull =>
    have hvalue : ((Assoc.get? "original_value" fields).getD .null).Bounded := by
      cases hget : Assoc.get? "original_value" fields with
      | none => trivial
      | some raw => exact hraw raw hget
    refine .bind (.ok _) fun word => (Only.of_malformed (Labelled.ofDatum_only _)).bind fun kind => ?_
    exact (RegistryValue.coerce_only hvalue kind).bind fun _ => .ok _

/-- The captures of one sort are read one after the other. -/
theorem failsOnly_restore {ω α : Type} {id : String} {ops : List ω}
    {read : ω → Datum → Except Failure α} {caught : Failure → Bool} :
    ∀ {cs : List (String × Datum)}, (∀ c ∈ cs, ∀ op ∈ ops, Only caught (read op c.2)) →
      ∀ m : Captures α, Act.FailsOnly caught (restore id ops read cs) m
  | [], _, _ => Act.failsOnly_pure _ _
  | (key, d) :: cs, h, m => by
    have hrest : ∀ m, Act.FailsOnly caught (restore id ops read cs) m :=
      failsOnly_restore fun c hc => h c (List.mem_cons_of_mem _ hc)
    unfold restore
    split
    · exact hrest m
    · split
      · exact hrest m
      · next op hop =>
        refine .bind (h _ List.mem_cons_self op (List.mem_of_getElem? hop)) fun capture m' _ => ?_
        exact (Act.failsOnly_after (Act.on_change _ _)).mpr (hrest _)

theorem part_object (fields : List (String × Datum)) (name : String) :
    part (.object fields) name = match (Assoc.get? name fields).getD (.object []) with
      | .object captures => .ok captures
      | d => .error (Failure.lacks d "items") := by
  rw [part, fieldOf, ok_bind]
  cases (Assoc.get? name fields).getD (.object []) <;> rfl

/-- The captures of one sort in a value of the right shape. -/
theorem Shaped.part {d : Datum} (h : Shaped d) (name : String)
    (hname : name ∈ ["registry", "services", "files"]) :
    ∃ captures, Store.part d name = .ok captures ∧ (∀ c ∈ captures, c.2.IsObject) ∧
      (captures = [] ∨ d.field? name = some (.object captures)) := by
  obtain ⟨fields, rfl⟩ := h.object
  rw [part_object]
  cases hget : Assoc.get? name fields with
  | none => exact ⟨[], rfl, nofun, .inl rfl⟩
  | some p =>
    obtain ⟨captures, rfl, hall⟩ := h.parts name hname p hget
    exact ⟨captures, rfl, hall, .inr hget⟩

/-- **A snapshot of the right shape does no harm**, whatever its captures say. -/
theorem Shaped.harmless {d : Datum} (h : Shaped d) (t : Tweak) : Harmless t d := by
  obtain ⟨registry, hregistry, hobjects, hvalues⟩ := h.part "registry" (by decide)
  obtain ⟨services, hservices, hobjects', -⟩ := h.part "services" (by decide)
  obtain ⟨files, hfiles, hobjects'', -⟩ := h.part "files" (by decide)
  unfold Harmless restoreAll
  rw [hregistry, hservices, hfiles]
  refine (Act.failsOnly_after (Act.on_result _ _)).mpr (.bind ?_ fun _ m _ => ?_)
  · refine Act.failsOnly_lift (failsOnly_restore (fun c hc op _ => ?_) _)
    refine registryCapture_only (hobjects c hc) ?_ op
    rcases hvalues with rfl | hfield
    · cases hc
    · exact h.bounded registry hfield c hc
  refine (Act.failsOnly_after (Act.on_result _ _)).mpr (.bind ?_ fun _ m _ => ?_)
  · refine Act.failsOnly_lift (failsOnly_restore (fun c hc op _ => ?_) _)
    obtain ⟨fields, hfields⟩ := hobjects' c hc
    rw [hfields]
    exact .ok _
  refine (Act.failsOnly_after (Act.on_result _ _)).mpr ?_
  refine Act.failsOnly_lift (failsOnly_restore (fun c hc op _ => ?_) _)
  obtain ⟨fields, hfields⟩ := hobjects'' c hc
  rw [hfields]
  exact .ok _

/-- A value that is no object does harm. -/
theorem Harmless.isObject {t : Tweak} {d : Datum} (h : Harmless t d) : d.IsObject := by
  cases d with
  | object fields => exact ⟨fields, rfl⟩
  | _ => exact nomatch h _ rfl

/-- What comes of reading captures is settled by the value that they are read from. -/
theorem restoreAll_result (t : Tweak) (d : Datum) :
    (restoreAll t d).DependsOn fun _ : Memory => () := by
  have hlift : ∀ {α : Type} {part : Part Memory α} {a : Act α Unit}, a.DependsOn (fun _ => ()) →
      (part.lift a).DependsOn fun _ : Memory => () := fun h m m' _ =>
    ⟨(h (Part.get _ m) (Part.get _ m') rfl).1, rfl⟩
  have hrestore : ∀ {ω α : Type} {ops : List ω} {read : ω → Datum → Except Failure α}
      (cs : List (String × Datum)), (restore t.id ops read cs).DependsOn fun _ => () := by
    intro ω α ops read cs
    induction cs with
    | nil => exact .pure _
    | cons c cs ih =>
      unfold restore
      split
      · exact ih
      · split
        · exact ih
        · exact .bind (.result _) fun _ => .bind (fun _ _ _ => ⟨rfl, rfl⟩) fun _ => ih
  exact .bind (.result _) fun _ => .bind (hlift (hrestore _)) fun _ => .bind (.result _) fun _ =>
    .bind (hlift (hrestore _)) fun _ => .bind (.result _) fun _ => hlift (hrestore _)

end Snapshot
end TweakEngine
