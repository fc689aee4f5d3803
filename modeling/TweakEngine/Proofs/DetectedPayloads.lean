/-
# Detecting what was set

Setting a value stores what `RegistryValue.coerce` makes of a payload; detecting it compares
what is stored with an expected value that was never coerced.  The two codes agree.  A number is
read alike by both (`RegistryValue.integer?_of_integerOf`) and a word agrees with a number
exactly when the number stands for the word (`BitVec.sameWord_iff`); a text is compared as the
text that it becomes (`RegistryValue.text_of_coerce`), and a list as its joined lines
(`RegistryValue.lines_of_coerce`).  `detects_payload` puts this together with the step that sets
the value.

Bytes are compared in hexadecimal, so a payload in base 64 does not match the bytes that it
stands for, and below a denied key nothing is found (`sample_unseen`).
-/

import TweakEngine.Detection.Detector
import TweakEngine.Proofs.MachineSteps

namespace TweakEngine

open Session

/-! ## Two codes for integers -/

/-- A word and a number agree on the word's width when the number stands for the word. -/
theorem BitVec.sameWord_iff (w : Nat) (a b : Int) :
    (((BitVec.ofInt w a).toNat : Int) % (Nat.pow 2 w : Int) == b % (Nat.pow 2 w : Int)) = true ↔
      BitVec.ofInt w a = BitVec.ofInt w b := by
  have hN : (0 : Int) < ((2 ^ w : Nat) : Int) := by
    have := Nat.two_pow_pos w
    omega
  have hpow : (Nat.pow 2 w : Int) = ((2 ^ w : Nat) : Int) := rfl
  have ha := Int.emod_nonneg a (Int.ne_of_gt hN)
  have hb := Int.emod_nonneg b (Int.ne_of_gt hN)
  rw [beq_iff_eq, hpow, ← BitVec.toNat_inj, BitVec.toNat_ofInt, BitVec.toNat_ofInt,
    Int.toNat_of_nonneg ha, Int.emod_emod_of_dvd _ (Int.dvd_refl _)]
  constructor
  · intro h
    rw [h]
  · intro h
    rw [← Int.toNat_of_nonneg ha, ← Int.toNat_of_nonneg hb, h]

/-- The width of the numbers of a kind. -/
def ValueKind.width? : ValueKind → Option Nat
  | .dword => some 32
  | .qword => some 64
  | _ => none

/-- The value behind a typed value; other values stand for themselves. -/
def Datum.untyped : Datum → Datum
  | .registry v => v.payload
  | d => d

namespace RegistryValue

/-- What a value becomes is what the value behind it becomes. -/
theorem coerce_ok {raw : Datum} {k : ValueKind} {v : RegistryValue}
    (h : coerce raw k = .ok (some v)) : coercePlain raw.untyped k = .ok v := by
  have hsome : ∀ x : Except Failure RegistryValue, some <$> x = .ok (some v) → x = .ok v := by
    intro x hx
    cases x with
    | error f => cases hx
    | ok w => exact congrArg Except.ok (Option.some.inj (Except.ok.inj hx))
  cases raw with
  | null => cases h
  | _ => exact hsome _ h

/-- The integer that coercion finds is the one that detection finds. -/
theorem integer?_of_integerOf {raw : Datum} {k : ValueKind} {n : Int}
    (h : integerOf raw.untyped k = .ok n) : Detection.integer? raw = some n := by
  have htext : ∀ s, integerOf (.text s) k = .ok n →
      (readNumeral (Text.trim s)).toOption = some n := by
    intro s hs
    rw [integerOf] at hs
    cases hm : readNumeral (Text.trim s) with
    | ok m =>
      rw [hm] at hs
      exact congrArg some (Except.ok.inj hs)
    | error f =>
      rw [hm] at hs
      cases hs
  have hother : ∀ d : Datum, (∀ s, d = .text s → False) → integerOf d k = .ok n →
      d.integral? = some n := by
    intro d hd hs
    rw [integerOf.eq_2 d k hd] at hs
    cases hm : d.integral? with
    | some m =>
      rw [hm] at hs
      exact congrArg some (Except.ok.inj hs)
    | none =>
      rw [hm] at hs
      cases hs
  cases raw with
  | text s => exact htext s h
  | registry v =>
    cases v with
    | string s => exact htext s h
    | expandString s => exact htext s h
    | _ => exact hother _ (fun _ e => by cases e) h
  | _ => exact hother _ (fun _ e => by cases e) h

theorem dword_of_coerce {raw : Datum} {v : RegistryValue} (h : coercePlain raw .dword = .ok v) :
    ∃ n, integerOf raw .dword = .ok n ∧ v = .dword (BitVec.ofInt 32 n) := by
  obtain ⟨n, hn, h⟩ := ok_of_bind h
  refine ⟨n, hn, ?_⟩
  split at h
  · exact (Except.ok.inj h).symm
  · exact nomatch h

theorem qword_of_coerce {raw : Datum} {v : RegistryValue} (h : coercePlain raw .qword = .ok v) :
    ∃ n, integerOf raw .qword = .ok n ∧ v = .qword (BitVec.ofInt 64 n) := by
  obtain ⟨n, hn, h⟩ := ok_of_bind h
  refine ⟨n, hn, ?_⟩
  split at h
  · exact (Except.ok.inj h).symm
  · exact nomatch h

end RegistryValue

namespace Detection

open RegistryValue

variable {p e : Datum} {k : ValueKind} {v w : RegistryValue}

/-- What is accepted is there. -/
theorem ne_null_of_coerce {raw : Datum} (h : coerce raw k = .ok (some v)) : raw ≠ .null := by
  rintro rfl
  exact nomatch h

/-- Two numbers are compared by their remainders. -/
theorem valuesMatch_of_integers {a e : Datum} {t : String} {width : Nat} {m n : Int}
    (ht : widthOf? t = some width) (hm : integer? a = some m) (hn : integer? e = some n) :
    valuesMatch a e t = (m % (Nat.pow 2 width : Int) == n % (Nat.pow 2 width : Int)) := by
  unfold valuesMatch
  split
  · cases hm
  · cases hm
  · cases hn
  · simp only [ht, hm, hn]

/-- What is no number is compared as a text. -/
theorem valuesMatch_of_texts {a e : Datum} {t : String} (ha : a ≠ .null) (he : e ≠ .null)
    (ht : widthOf? t = none) :
    valuesMatch a e t = Text.sameIgnoringCase (comparedText a) (comparedText e) := by
  unfold valuesMatch
  split
  · exact absurd rfl ha
  · exact absurd rfl ha
  · exact absurd rfl he
  · simp only [ht]

/-- **Numbers.**  What a payload has become matches an expected value when both become the
same value. -/
theorem valuesMatch_numbers (hk : k = .dword ∨ k = .qword) (hp : coerce p k = .ok (some v))
    (he : coerce e k = .ok (some w)) :
    valuesMatch (.registry v) e k.label = true ↔ coerce p k = coerce e k := by
  have hp' := coerce_ok hp
  have he' := coerce_ok he
  rw [hp, he, Except.ok.injEq, Option.some.injEq]
  rcases hk with rfl | rfl
  · obtain ⟨a, ha, rfl⟩ := dword_of_coerce hp'
    obtain ⟨b, hb, rfl⟩ := dword_of_coerce he'
    have hwidth : widthOf? ValueKind.dword.label = some 32 := by decide +kernel
    have hactual : integer? (.registry (.dword (BitVec.ofInt 32 a))) =
        some ((BitVec.ofInt 32 a).toNat : Int) := rfl
    rw [valuesMatch_of_integers hwidth hactual (integer?_of_integerOf hb),
      RegistryValue.dword.injEq]
    exact BitVec.sameWord_iff 32 a b
  · obtain ⟨a, ha, rfl⟩ := qword_of_coerce hp'
    obtain ⟨b, hb, rfl⟩ := qword_of_coerce he'
    have hwidth : widthOf? ValueKind.qword.label = some 64 := by decide +kernel
    have hactual : integer? (.registry (.qword (BitVec.ofInt 64 a))) =
        some ((BitVec.ofInt 64 a).toNat : Int) := rfl
    rw [valuesMatch_of_integers hwidth hactual (integer?_of_integerOf hb),
      RegistryValue.qword.injEq]
    exact BitVec.sameWord_iff 64 a b

/-- Values that are not numbers are compared as texts. -/
theorem valuesMatch_texts (v : RegistryValue) (he : coerce e k = .ok (some w))
    (hk : widthOf? k.label = none) :
    valuesMatch (.registry v) e k.label = true ↔
      Text.fold v.display = Text.fold (comparedText e) := by
  have hthere : Datum.registry v ≠ .null := nofun
  rw [valuesMatch_of_texts hthere (ne_null_of_coerce he) hk]
  exact beq_iff_eq

end Detection

/-- The text of a natural number is its numeral. -/
theorem Decimal.intText_natCast (n : Nat) : Decimal.intText n = toString n := by
  have hneg : ¬(n : Int) < 0 := by omega
  rw [Decimal.intText, if_neg hneg, Int.natAbs_natCast, Decimal.natChars]
  exact String.toList_inj.mp (by rw [String.toList_ofList]; exact Nat.toList_repr.symm)

namespace Detection

open RegistryValue

variable {p e : Datum} {k : ValueKind} {v w : RegistryValue}

end Detection

namespace RegistryValue

variable {raw : Datum} {k : ValueKind} {v : RegistryValue}

theorem plainText_of_coerce (hk : k = .string ∨ k = .expandString)
    (h : coercePlain raw k = .ok v) :
    v.display = raw.display ∧ Detection.comparedText raw = raw.display := by
  have hv : v.display = raw.display ∧ (∀ items, raw ≠ .list items) ∧ (∀ items, raw ≠ .tuple items) ∧
      ∀ bs, raw ≠ .bytes bs := by
    rcases hk with rfl | rfl
    all_goals
      cases raw with
      | list | tuple | object | bytes => exact nomatch h
      | _ =>
        have hv := Except.ok.inj h
        exact ⟨by rw [← hv]; rfl, nofun, nofun, nofun⟩
  obtain ⟨hv, hlist, htuple, hbytes⟩ := hv
  refine ⟨hv, ?_⟩
  cases raw with
  | list items => exact absurd rfl (hlist items)
  | tuple items => exact absurd rfl (htuple items)
  | bytes bs => exact absurd rfl (hbytes bs)
  | _ => rfl

/-- A value that a textual kind accepts has the text that it becomes and that is compared. -/
theorem text_of_coerce (hk : k = .string ∨ k = .expandString) (h : coerce raw k = .ok (some v)) :
    v.display = raw.display ∧ Detection.comparedText raw = raw.display := by
  have hplain := coerce_ok h
  cases raw with
  | registry u =>
    refine ⟨?_, rfl⟩
    rw [(plainText_of_coerce hk hplain).1]
    cases u with
    | dword n | qword n => exact Decimal.intText_natCast _
    | string s | expandString s => rfl
    | binary bytes => rcases hk with rfl | rfl <;> exact nomatch hplain
    | multiString lines => rcases hk with rfl | rfl <;> exact nomatch hplain
  | _ => exact plainText_of_coerce hk hplain

end RegistryValue

/-- The texts of the items of a list, plain or typed. -/
def Datum.lines? (d : Datum) : Option (List String) :=
  match d.untyped with
  | .list items | .tuple items => some (items.map Datum.display)
  | _ => none

namespace RegistryValue

/-- A list becomes the list of the texts of its items, joined by commas. -/
theorem lines_of_coerce {raw : Datum} {v : RegistryValue} {lines : List String}
    (h : coerce raw .multiString = .ok (some v)) (hl : raw.lines? = some lines) :
    v.display = Text.join ", " lines ∧ Detection.comparedText raw = Text.join ", " lines := by
  have hplain := coerce_ok h
  cases raw with
  | registry u =>
    cases u with
    | multiString ls =>
      have htexts : (ls.map Datum.text).map Datum.display = ls := by
        rw [List.map_map]
        exact List.map_id ls
      have hv : RegistryValue.multiString ((ls.map Datum.text).map Datum.display) = v :=
        Except.ok.inj hplain
      have hls : (ls.map Datum.text).map Datum.display = lines := Option.some.inj hl
      rw [htexts] at hv hls
      exact ⟨by rw [← hv, ← hls]; rfl, by rw [← hls]; rfl⟩
    | _ => exact nomatch hl
  | list items | tuple items =>
    have hv := Except.ok.inj hplain
    have hls := Option.some.inj hl
    exact ⟨by rw [← hv, ← hls]; rfl, by rw [← hls]; rfl⟩
  | _ => exact nomatch hl

end RegistryValue
/-! ## Setting and detecting -/

/-- A rule that looks at the value which an operation sets, and at nothing else. -/
structure Rule.Watches (rule : Rule) (op : RegistryOperation) : Prop where
  type : Labelled.parse? rule.type = some RuleKind.registryValue
  hive : rule.hive.truthy = true ∧ Labelled.ofDatum rule.hive = .ok op.hive
  keyPath : rule.keyPath.truthy = true ∧ Machine.folded rule.keyPath = Machine.folded op.keyPath
  valueName : rule.valueName.truthy = true ∧
    Machine.foldedName rule.valueName = Machine.foldedName op.valueName
  valueType : rule.valueType = op.kind.label
  inverted : rule.inverted = false

namespace Machine

/-- What is stored below a key that is not denied is found. -/
theorem reading_of_stored {m : Machine} {hive : Hive} {path name : String}
    {v : Option RegistryValue} (hd : (hive, path) ∉ m.denied)
    (h : m.stored (hive, path) name = some v) : m.reading hive path name = .found v := by
  unfold reading
  rw [if_neg hd]
  obtain ⟨values, hk, hv⟩ := Option.bind_eq_some_iff.mp h
  rw [hk]
  dsimp only
  rw [hv]

end Machine

/-- A value that has been set is stored. -/
theorem Machine.stored_of_setValue {m m' : Machine} {hive : Hive} {path name : Datum}
    {v : RegistryValue} {r : Unit} (h : m.apply (.setValue hive path name v) = .ok (r, m')) :
    ∃ p n, folded path = .ok p ∧ foldedName name = .ok n ∧
      m'.stored (hive, p) n = some (some v) ∧ m'.settings = m.settings := by
  obtain ⟨p, hp, h'⟩ := ok_of_bind h
  obtain ⟨n, hn, h'⟩ := ok_of_bind h'
  have hset := (apply_registry_frame rfl h).1
  cases h'
  exact ⟨p, n, hp, hn, by simp [stored, Assoc.get?_put], hset⟩

namespace Engine

variable {e : Engine Machine} {slot : Slot} {op : RegistryOperation} {s s' : Session Machine}

/-- A write that has been carried out changed the machine as the machine says. -/
theorem applied_of_write (he : e.mutator = Machine.mutator) {w : Write} {x : w.Reply}
    (hw : (e.write w).on s = (.ok x, s')) :
    s.core.machine.apply w = .ok (x, s'.core.machine) := by
  have hperform : e.write w = onHost (Machine.perform w) := by rw [Engine.write, he]; rfl
  obtain ⟨s₁, hs₁, hcore⟩ := perform_answers (s := s) w
  rw [hperform, hs₁] at hw
  obtain ⟨hx, rfl⟩ := Prod.mk.inj hw
  cases ha : s.core.machine.answer (.write w) (s.core.machine.apply w) with
  | error f =>
    rw [ha] at hx
    cases hx
  | ok y =>
    rw [ha] at hx hcore
    obtain ⟨y, m'⟩ := y
    obtain rfl : y = x := Except.ok.inj hx
    rw [hcore]
    exact Machine.ok_of_answer ha

/-- An operation that has set a value has stored what its payload becomes. -/
theorem stored_of_run (he : e.mutator = Machine.mutator) (hu : e.targetUser.truthy = false)
    (ha : op.action = .setValue) (hrun : (e.runRegistry slot op).on s = (.ok none, s')) :
    ∃ v p n, op.resolveValue = .ok (some v) ∧ Machine.folded op.keyPath = .ok p ∧
      Machine.foldedName op.valueName = .ok n ∧
      s'.core.machine.stored (op.hive, p) n = some (some v) ∧
      s'.core.machine.settings = s.core.machine.settings := by
  have hread : e.mutator.readValue = Machine.readValue := by rw [he]; rfl
  have hresolve : (onHost (e.resolve op.hive op.keyPath)).on s = (.ok (op.hive, op.keyPath), s) := by
    simp [resolve, hu, onHost, hostPart]
  have hleaves : Leaves s.core.machine (e.captureValue slot op.hive op.keyPath op.valueName) := by
    rw [captureValue, hread]
    exact .ask_bind fun _ _ => .discard fun _ h => h
  rw [runRegistry, Act.on_bind, hresolve, ha] at hrun
  obtain ⟨_, s₁, hcapture, hrun⟩ := Act.ok_of_on_bind hrun
  have hm₁ : s₁.core.machine = s.core.machine := by
    have := hleaves s rfl
    rwa [hcapture] at this
  obtain ⟨v?, s₂, hresult, hrun⟩ := Act.ok_of_on_bind hrun
  rw [Act.on_result] at hresult
  obtain ⟨hv, rfl⟩ := Prod.mk.inj hresult
  cases v? with
  | none => cases hrun
  | some v =>
    obtain ⟨x, s₃, hw, hrun⟩ := Act.ok_of_on_bind hrun
    cases hrun
    obtain ⟨p, n, hp, hn, hstored, hset⟩ := Machine.stored_of_setValue (applied_of_write he hw)
    exact ⟨v, p, n, hv, hp, hn, hstored, hset.trans (by rw [hm₁])⟩

end Engine
section

variable {e : Engine Machine} {slot : Slot} {op : RegistryOperation} {s s' : Session Machine}
  {d : Detector Machine} {rule : Rule}

/-- A rule that watches a stored value compares it with what it expects. -/
theorem Detector.evaluateRule_watches (hd : d.probe = Machine.probe)
    (hcustom : Assoc.get? (Text.fold rule.type) d.evaluators = none) (hr : rule.Watches op)
    {h : Host Machine}
    (hread : h.machine.faults (.readValue op.hive rule.keyPath rule.valueName) = none)
    {p n : String} (hp : Machine.folded op.keyPath = .ok p)
    (hn : Machine.foldedName op.valueName = .ok n) (hshown : (op.hive, p) ∉ h.machine.denied)
    {v : RegistryValue} (hv : h.machine.stored (op.hive, p) n = some (some v)) :
    ∃ o, (d.evaluateRule rule).on h = (.ok o, h) ∧
      o.matched = Detection.valuesMatch (.registry v) rule.expected op.kind.label := by
  have hevaluator : d.evaluatorOf rule = some (Detection.evaluateValue rule Machine.probe) := by
    rw [Detector.evaluatorOf, hcustom, hr.type, ← hd]
    rfl
  have hanswer : (Machine.readValue op.hive rule.keyPath rule.valueName).on h =
      (.ok (.found (some v)), h) := by
    rw [Machine.readValue, Machine.on_ask, Machine.answer_of_none hread, hr.keyPath.2,
      hr.valueName.2, hp, hn, ← Machine.reading_of_stored hshown hv]
    rfl
  have hevaluate : ∃ o, (Detection.evaluateValue rule Machine.probe).on h = (.ok o, h) ∧
      o.matched = Detection.valuesMatch (.registry v) rule.expected op.kind.label := by
    have htruthy : (!rule.hive.truthy || !rule.keyPath.truthy || !rule.valueName.truthy) = false := by
      rw [hr.hive.1, hr.keyPath.1, hr.valueName.1]
      rfl
    refine ⟨Detection.outcome rule (Detection.valuesMatch (.registry v) rule.expected rule.valueType)
      ("Actual: " ++ (Datum.registry v).display), ?_, ?_⟩
    · rw [Detection.evaluateValue]
      simp only [htruthy, Bool.false_eq_true, if_false]
      rw [Act.on_bind, Act.on_result, hr.hive.2]
      dsimp only [Machine.probe]
      rw [Act.on_bind, hanswer]
      rfl
    · rw [← hr.valueType, Detection.outcome, hr.inverted]
      exact Bool.xor_false _
  obtain ⟨o, ho, hmatched⟩ := hevaluate
  refine ⟨o, ?_, hmatched⟩
  rw [Detector.evaluateRule, hevaluator]
  dsimp only
  rw [Act.on_bind, Act.on_attempt, ho]
  rfl

/-- **Detection agrees with what was set.**  After an operation has set a value, a rule that
watches the value and reads it, below a key that is not denied, matches exactly when payload and
expected value become the same number, have the same text ignoring case, or are lists of which
the joined texts are the same ignoring case.  A rule that repeats the payload matches, unless the
payload is binary or a list in one text. -/
theorem detects_payload (he : e.mutator = Machine.mutator) (hu : e.targetUser.truthy = false)
    (ha : op.action = .setValue) (hrun : (e.runRegistry slot op).on s = (.ok none, s'))
    (hd : d.probe = Machine.probe)
    (hcustom : Assoc.get? (Text.fold rule.type) d.evaluators = none) (hr : rule.Watches op)
    (hread : s'.host.machine.faults (.readValue op.hive rule.keyPath rule.valueName) = none)
    (hshown : ∀ p, Machine.folded op.keyPath = .ok p → (op.hive, p) ∉ s'.host.machine.denied)
    {w : RegistryValue} (hw : RegistryValue.coerce rule.expected op.kind = .ok (some w)) :
    ∃ o, (d.evaluateRule rule).on s'.host = (.ok o, s'.host) ∧
      (op.kind = .dword ∨ op.kind = .qword → (o.matched = true ↔
        RegistryValue.coerce op.value op.kind = RegistryValue.coerce rule.expected op.kind)) ∧
      (op.kind = .string ∨ op.kind = .expandString → (o.matched = true ↔
        Text.fold op.value.display = Text.fold rule.expected.display)) ∧
      (op.kind = .multiString → ∀ ps es, op.value.lines? = some ps → rule.expected.lines? = some es →
        (o.matched = true ↔ Text.fold (Text.join ", " ps) = Text.fold (Text.join ", " es))) ∧
      (rule.expected = op.value → op.kind ≠ .binary →
        (op.kind = .multiString → op.value.lines?.isSome = true) → o.matched = true) := by
  obtain ⟨v, p, n, hv, hp, hn, hstored, -⟩ := Engine.stored_of_run he hu ha hrun
  obtain ⟨o, ho, hmatched⟩ := Detector.evaluateRule_watches hd hcustom hr hread hp hn (hshown p hp)
    hstored
  have hnumbers : op.kind = .dword ∨ op.kind = .qword → (o.matched = true ↔
      RegistryValue.coerce op.value op.kind = RegistryValue.coerce rule.expected op.kind) := by
    intro hk
    rw [hmatched]
    exact Detection.valuesMatch_numbers hk hv hw
  have htexts : op.kind = .string ∨ op.kind = .expandString → (o.matched = true ↔
      Text.fold op.value.display = Text.fold rule.expected.display) := by
    intro hk
    have hwidth : Detection.widthOf? op.kind.label = none := by
      rcases hk with hk | hk <;> rw [hk] <;> decide +kernel
    rw [hmatched, Detection.valuesMatch_texts v hw hwidth,
      (RegistryValue.text_of_coerce hk hv).1, (RegistryValue.text_of_coerce hk hw).2]
  have hlines : op.kind = .multiString → ∀ ps es, op.value.lines? = some ps →
      rule.expected.lines? = some es →
        (o.matched = true ↔ Text.fold (Text.join ", " ps) = Text.fold (Text.join ", " es)) := by
    intro hk ps es hps hes
    have hwidth : Detection.widthOf? op.kind.label = none := by rw [hk]; decide +kernel
    have hv' : RegistryValue.coerce op.value .multiString = .ok (some v) := hk ▸ hv
    have hw' : RegistryValue.coerce rule.expected .multiString = .ok (some w) := hk ▸ hw
    rw [hmatched, Detection.valuesMatch_texts v hw hwidth,
      (RegistryValue.lines_of_coerce hv' hps).1, (RegistryValue.lines_of_coerce hw' hes).2]
  refine ⟨o, ho, hnumbers, htexts, hlines, fun hown hbinary hlist => ?_⟩
  cases hk : op.kind with
  | dword => exact (hnumbers (.inl hk)).mpr (by rw [hown])
  | qword => exact (hnumbers (.inr hk)).mpr (by rw [hown])
  | string => exact (htexts (.inl hk)).mpr (by rw [hown])
  | expandString => exact (htexts (.inr hk)).mpr (by rw [hown])
  | binary => exact absurd hk hbinary
  | multiString =>
    obtain ⟨ps, hps⟩ := Option.isSome_iff_exists.mp (hlist hk)
    exact (hlines hk ps ps hps (hown ▸ hps)).mpr rfl

end

/-! ## Samples -/

section

/-- Sets the value `level` of a key. -/
def settingOf (keyPath : String) (kind : ValueKind) (payload : Datum) : RegistryOperation :=
  { hive := .localMachine, keyPath := .text keyPath, valueName := .text "level", kind
    value := payload }

/-- A rule on the value that an operation sets. -/
def ruleOf (op : RegistryOperation) (expected : Datum) : Rule :=
  { type := "RegistryValue", hive := .text "LocalMachine", keyPath := op.keyPath
    valueName := op.valueName, expected, valueType := op.kind.label }

/-- The session after an operation on a machine with denied keys. -/
def settled (denied : List (Hive × String)) (op : RegistryOperation) :
    Except Failure (Option String) × Session Machine :=
  (Engine.runRegistry { mutator := Machine.mutator } ⟨"t", .apply, 0⟩ op).on
    { host := { machine := { denied } } }

/-- Whether an operation has set a value and a rule that repeats its payload does not match. -/
def unseen (denied : List (Hive × String)) (op : RegistryOperation) : Bool :=
  match settled denied op with
  | (.ok none, s) =>
    match (Detector.evaluateRule { probe := Machine.probe } (ruleOf op op.value)).on s.host with
    | (.ok o, _) => !o.matched
    | _ => false
  | _ => false

/-- A negative number is found as the number that it becomes. -/
theorem sample_detected :
    let op := settingOf "Demo" .dword (.int (-1))
    let rule := ruleOf op (.text "0xFFFF_FFFF")
    (settled [] op).1 = .ok none ∧ rule.Watches op ∧
      RegistryValue.coerce rule.expected op.kind = .ok (some (.dword 4294967295)) ∧
      ∃ o, (Detector.evaluateRule { probe := Machine.probe } rule).on (settled [] op).2.host =
        (.ok o, (settled [] op).2.host) ∧ o.matched = true := by
  intro op rule
  have hw : RegistryValue.coerce rule.expected op.kind = .ok (some (.dword 4294967295)) := by
    decide +kernel
  have hwatches : rule.Watches op :=
    ⟨by decide +kernel, ⟨by decide +kernel, by decide +kernel⟩, ⟨by decide +kernel, rfl⟩,
      ⟨by decide +kernel, rfl⟩, rfl, rfl⟩
  have hrun : (Engine.runRegistry { mutator := Machine.mutator } ⟨"t", .apply, 0⟩ op).on
      { host := { machine := {} } } = (.ok none, (settled [] op).2) := Prod.ext rfl rfl
  obtain ⟨o, ho, hnumbers, -⟩ := detects_payload (d := { probe := Machine.probe }) rfl rfl rfl hrun
    rfl rfl hwatches rfl (fun _ _ => List.not_mem_nil) hw
  exact ⟨rfl, hwatches, hw, o, ho, (hnumbers (.inl rfl)).mpr (by decide +kernel)⟩

/-- A rule that repeats the payload does not match below a denied key or without a key path, and
where the payload is binary or a list in one text: these compare with the bytes in hexadecimal
and with the lines joined by commas. -/
theorem sample_unseen :
    unseen [(.localMachine, "demo")] (settingOf "Demo" .dword (.int 1)) = true ∧
      unseen [] (settingOf "" .dword (.int 1)) = true ∧
      unseen [] (settingOf "Demo" .binary (.text "AQID")) = true ∧
      unseen [] (settingOf "Demo" .multiString (.text "a\nb")) = true := by
  decide +kernel

end
end TweakEngine
