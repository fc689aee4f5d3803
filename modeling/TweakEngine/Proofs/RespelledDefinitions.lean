/-
# Keys in another case and another order

A definition is a tree of objects: a tweak, sets of operations, operations, rule sets, rules and
fallbacks.  Writing the keys of each of these objects in other letter case and in another order is
`Tweak.Respelled`; everything that is no such object stays as it is, and no object has two keys that
agree ignoring case.  A relation on objects (`Recased`) is given for each kind of object by what
may stand under each of its keys.

Every reader of the tree asks for its fields by `Fields.find?`.  Looking a field up gives values
that may stand for one another (`Recased.find?`), so each reader gives the same answer to both
objects, the reader of a whole tweak last (`Tweak.read_alike`).
-/

import TweakEngine.Proofs.DefinitionFields

namespace TweakEngine

/-! ## Objects with respelled keys -/

/-- Which values may be written in place of which others. -/
abbrev Spelling := Datum → Datum → Prop

/-- Only a missing value is written in place of a missing one. -/
def Spelling.KeepsNull (S : Spelling) : Prop := ∀ {d e : Datum}, S d e → d.isNull = e.isNull

/-- One object in place of another one: its keys may come in another order and in other letter
case, and a value may be written as `inner` allows it under its key, which is given folded.
No two keys of the object agree ignoring case. -/
inductive Recased (inner : String → Spelling) : Spelling
  | same (d : Datum) : Recased inner d d
  | object {xs zs ys : List (String × Datum)} (distinct : (xs.map fun e => Text.fold e.1).Nodup)
      (order : xs.Perm zs)
      (fields : List.Forall₂ (fun a b => Text.fold a.1 = Text.fold b.1 ∧
        inner (Text.fold a.1) a.2 b.2) zs ys) :
      Recased inner (.object xs) (.object ys)

/-- One list in place of another one, item by item. -/
inductive Listed (S : Spelling) : Spelling
  | same (d : Datum) : Listed S d d
  | list {xs ys : List Datum} (items : List.Forall₂ S xs ys) : Listed S (.list xs) (.list ys)

theorem keepsNull_eq : Spelling.KeepsNull Eq := fun h => congrArg Datum.isNull h

theorem Recased.keepsNull {inner : String → Spelling} : Spelling.KeepsNull (Recased inner)
  | _, _, .same _ => rfl
  | _, _, .object _ _ _ => rfl

theorem Listed.keepsNull {S : Spelling} : Spelling.KeepsNull (Listed S)
  | _, _, .same _ => rfl
  | _, _, .list _ => rfl

/-! ## Definitions with respelled keys -/

/-- An operation, a rule or a fallback: an object of which every value stays. -/
def RespelledRecord : Spelling := Recased fun _ => Eq

/-- What may stand in a set of operations. -/
def OperationSet.respelling (key : String) : Spelling :=
  if key ∈ ["registryOperations", "serviceOperations", "powerShellOperations",
      "scriptOperations", "fileOperations"].map Text.fold then Listed RespelledRecord
  else Eq

/-- A set of operations with respelled keys, also in its operations. -/
def OperationSet.Respelled : Spelling := Recased OperationSet.respelling

/-- What may stand in a rule set that is an object. -/
def RuleSet.respelling (key : String) : Spelling :=
  if key = Text.fold "rules" then Listed RespelledRecord
  else if key ∈ ["fallbackBehavior", "fallback"].map Text.fold then RespelledRecord
  else Eq

/-- A rule set with respelled keys, also in its rules and its fallback; it may be a bare list of
rules. -/
def RuleSet.Respelled (d e : Datum) : Prop :=
  Listed RespelledRecord d e ∨ Recased RuleSet.respelling d e

/-- What may stand in a tweak. -/
def Tweak.respelling (key : String) : Spelling :=
  if key ∈ ["applyOperations", "operations", "undoOperations"].map Text.fold then
    OperationSet.Respelled
  else if key = Text.fold "detectionRules" then RuleSet.Respelled
  else Eq

/-- A definition with respelled keys at every level. -/
def Tweak.Respelled : Spelling := Recased Tweak.respelling

theorem OperationSet.respelling_keepsNull (key : String) : (respelling key).KeepsNull := by
  unfold respelling
  split
  · exact Listed.keepsNull
  · exact keepsNull_eq

theorem RuleSet.respelled_keepsNull : Spelling.KeepsNull RuleSet.Respelled
  | _, _, .inl h => Listed.keepsNull h
  | _, _, .inr h => Recased.keepsNull h

theorem RuleSet.respelling_keepsNull (key : String) : (respelling key).KeepsNull := by
  unfold respelling
  split
  · exact Listed.keepsNull
  split
  · exact Recased.keepsNull
  · exact keepsNull_eq

theorem Tweak.respelling_keepsNull (key : String) : (respelling key).KeepsNull := by
  unfold respelling
  split
  · exact Recased.keepsNull
  split
  · exact RuleSet.respelled_keepsNull
  · exact keepsNull_eq

/-! ## Looking fields up -/

section

variable {κ α β : Type}

theorem Assoc.keys_forall₂ {R : κ → α → β → Prop} {xs : Assoc κ α} {ys : Assoc κ β}
    (h : List.Forall₂ (fun a b => a.1 = b.1 ∧ R a.1 a.2 b.2) xs ys) : keys xs = keys ys := by
  induction h with
  | nil => rfl
  | cons hab _ ih => exact congrArg₂ List.cons hab.1 ih

variable [DecidableEq κ]

/-- The order of a table with different keys does not matter. -/
theorem Assoc.get?_perm {xs ys : Assoc κ α} (hn : (keys xs).Nodup) (h : xs.Perm ys) (k : κ) :
    get? k xs = get? k ys := by
  have hys : (keys ys).Nodup := (h.map Prod.fst).nodup hn
  cases hy : get? k ys with
  | some a => exact get?_of_mem hn (h.mem_iff.mpr (mem_of_get? hy))
  | none =>
    cases hx : get? k xs with
    | none => rfl
    | some a => rw [get?_of_mem hys (h.mem_iff.mp (mem_of_get? hx))] at hy; cases hy

/-- Tables with the same keys, entry by entry, hold related values. -/
theorem Assoc.get?_forall₂ {R : κ → α → β → Prop} (k : κ) {xs : Assoc κ α} {ys : Assoc κ β}
    (h : List.Forall₂ (fun a b => a.1 = b.1 ∧ R a.1 a.2 b.2) xs ys) :
    Option.Rel (R k) (get? k xs) (get? k ys) := by
  induction h with
  | nil => exact .none
  | @cons a b xs ys hab _ ih =>
    obtain ⟨hkey, hvalue⟩ := hab
    rw [get?, get?, ← hkey]
    by_cases hk : a.1 = k
    · rw [if_pos hk, if_pos hk]
      exact .some (hk ▸ hvalue)
    · rw [if_neg hk, if_neg hk]
      exact ih

end

section

variable {inner : String → Spelling} {S : Spelling} {name : String} {d e : Datum} {α : Type}

/-- Related values are asked for further, or nothing is there on both sides. -/
theorem match_related {β : Type} {k k' : Datum → β} {z z' : β} : ∀ {a b : Option Datum},
    Option.Rel S a b → (∀ {d e}, S d e → k d = k' e) → z = z' →
      (match a with | some d => k d | none => z) = match b with | some d => k' d | none => z'
  | _, _, .some hde, hk, _ => hk hde
  | _, _, .none, _, hz => hz

theorem eq_of_related {a b : Option Datum} (h : Option.Rel Eq a b) : a = b := by
  cases h with
  | some hde => rw [hde]
  | none => rfl

theorem given?_related {a b : Option Datum} (hS : S.KeepsNull) (h : Option.Rel S a b) :
    Option.Rel S (a.bind Datum.given?) (b.bind Datum.given?) := by
  cases h with
  | none => exact .none
  | some hde =>
    rw [Option.bind_some, Option.bind_some, Datum.given?, Datum.given?, hS hde]
    split
    · exact .none
    · exact .some hde

theorem or_related {a b a' b' : Option Datum} (h : Option.Rel S a b) (h' : Option.Rel S a' b') :
    Option.Rel S (a.or a') (b.or b') := by
  cases h with
  | none => exact h'
  | some hde => exact .some hde

/-- The fields of one object in place of those of another one. -/
structure Fields.Respell (inner : String → Spelling) (f g : Fields) : Prop where
  what : f.what = g.what
  found : ∀ name, Option.Rel (inner (Text.fold name)) (f.find? [name]) (g.find? [name])

/-- **Looking a field up** in an object with respelled keys gives a value that may stand for the
one in the other object. -/
theorem Recased.fields (what : String) {xs ys zs : List (String × Datum)}
    (hinner : ∀ key, (inner key).KeepsNull) (hn : (xs.map fun e => Text.fold e.1).Nodup)
    (horder : xs.Perm zs)
    (hfields : List.Forall₂ (fun a b => Text.fold a.1 = Text.fold b.1 ∧
      inner (Text.fold a.1) a.2 b.2) zs ys) :
    ∃ f g, Fields.ofDatum what (.object xs) = .ok f ∧ Fields.ofDatum what (.object ys) = .ok g ∧
      f.Respell inner g := by
  let folded (es : List (String × Datum)) : Assoc String Datum :=
    es.map fun e => (Text.fold e.1, e.2)
  have hxs : (Assoc.keys (folded xs)).Nodup := by rwa [Assoc.keys, List.map_map]
  have hall : List.Forall₂ (fun a b : String × Datum => a.1 = b.1 ∧ inner a.1 a.2 b.2)
      (folded zs) (folded ys) :=
    List.forall₂_map_left_iff.mpr (List.forall₂_map_right_iff.mpr hfields)
  have horder' : (folded xs).Perm (folded zs) := horder.map _
  have hys : (Assoc.keys (folded ys)).Nodup :=
    Assoc.keys_forall₂ hall ▸ (horder'.map Prod.fst).nodup hxs
  refine ⟨_, _, rfl, rfl, rfl, fun name => ?_⟩
  have hget := Assoc.get?_forall₂ (Text.fold name) hall
  rw [← Assoc.get?_perm hxs horder'] at hget
  rw [Fields.find?_one, Fields.find?_one, Assoc.ofList_of_nodup hxs, Assoc.ofList_of_nodup hys]
  exact given?_related (hinner _) hget

/-- A reader that gives the same answer for fields that may stand for one another does so for
the objects. -/
theorem Recased.read {what : String} {k : Fields → Except Failure α}
    (hinner : ∀ key, (inner key).KeepsNull)
    (h : Recased inner d e) (hk : ∀ {f g : Fields}, f.Respell inner g → k f = k g) :
    (Fields.ofDatum what d >>= k) = (Fields.ofDatum what e >>= k) := by
  cases h with
  | same d => rfl
  | object hn horder hfields =>
    obtain ⟨f, g, hf, hg, hfg⟩ := Recased.fields what hinner hn horder hfields
    rw [hf, hg]
    exact hk hfg

namespace Fields.Respell

variable {f g : Fields}

/-- The first of some fields, when each of them is spelled in the same way. -/
theorem first (h : f.Respell inner g) : ∀ {names : List String},
    (∀ name ∈ names, inner (Text.fold name) = S) → Option.Rel S (f.find? names) (g.find? names)
  | [], _ => .none
  | name :: names, hS => by
    have hname := h.found name
    rw [hS name List.mem_cons_self] at hname
    rw [Fields.find?_cons, g.find?_cons]
    exact or_related hname (h.first fun name' h' => hS name' (List.mem_cons_of_mem _ h'))

/-- A field that has one spelling only. -/
theorem find?_eq (h : f.Respell inner g) {names : List String}
    (hplain : ∀ name ∈ names, inner (Text.fold name) = Eq) : f.find? names = g.find? names :=
  eq_of_related (h.first hplain)

theorem get_eq (h : f.Respell inner g) (hplain : inner (Text.fold name) = Eq) :
    f.get name = g.get name := by
  rw [Fields.get, Fields.get, h.find?_eq (by simpa using hplain)]

theorem getOr_eq (h : f.Respell inner g) (hplain : inner (Text.fold name) = Eq) :
    f.getOr name d = g.getOr name d := by
  rw [Fields.getOr, Fields.getOr, h.find?_eq (by simpa using hplain)]

theorem require_eq (h : f.Respell inner g) (hplain : inner (Text.fold name) = Eq) :
    f.require name = g.require name := by
  rw [Fields.require, Fields.require, h.find?_eq (by simpa using hplain), h.what]

end Fields.Respell

/-- Records of lists that stand for one another are read one by one. -/
theorem mapM_related_items {read : Datum → Except Failure α} {xs ys : List Datum}
    (h : List.Forall₂ S xs ys) (hread : ∀ {d e}, S d e → read d = read e) :
    xs.mapM read = ys.mapM read := by
  induction h with
  | nil => rfl
  | cons hab _ ih => rw [List.mapM_cons, List.mapM_cons, hread hab, ih]

theorem Listed.iterate {read : Datum → Except Failure α} (h : Listed S d e)
    (hread : ∀ {d e}, S d e → read d = read e) :
    (d.iterate >>= List.mapM read) = (e.iterate >>= List.mapM read) := by
  cases h with
  | same => rfl
  | list hitems => exact mapM_related_items hitems hread

theorem Fields.Respell.each {f g : Fields} {names : List String}
    {read : Datum → Except Failure α} (h : f.Respell inner g)
    (hnames : ∀ name ∈ names, inner (Text.fold name) = Listed S)
    (hread : ∀ {d e}, S d e → read d = read e) : f.each names read = g.each names read := by
  have hlist : Listed S ((f.find? names).getD (.list [])) ((g.find? names).getD (.list [])) := by
    have hfirst := h.first hnames
    revert hfirst
    generalize f.find? names = a, g.find? names = b
    rintro (hde | -)
    · exact hde
    · exact .same _
  exact hlist.iterate hread

end

/-! ## Reading the parts of a definition -/

section

variable {d e : Datum}

/-- Readers of records look at their fields only. -/
theorem RespelledRecord.read {α : Type} {what : String} {k : Fields → Except Failure α}
    (h : RespelledRecord d e)
    (hk : ∀ {f g : Fields}, f.what = g.what → f.find? = g.find? → k f = k g) :
    (Fields.ofDatum what d >>= k) = (Fields.ofDatum what e >>= k) :=
  Recased.read (fun _ => keepsNull_eq) h fun hfg =>
    hk hfg.what (funext fun _ => hfg.find?_eq fun _ _ => rfl)

theorem RegistryOperation.ofDatum_respelled (h : RespelledRecord d e) : ofDatum d = ofDatum e :=
  h.read fun hwhat hfind => by
    simp only [Fields.get, Fields.getOr, Fields.require, hwhat, hfind]

theorem ServiceOperation.ofDatum_respelled (h : RespelledRecord d e) : ofDatum d = ofDatum e :=
  h.read fun hwhat hfind => by
    simp only [Fields.get, Fields.getOr, Fields.require, hwhat, hfind]

theorem FileOperation.ofDatum_respelled (h : RespelledRecord d e) : ofDatum d = ofDatum e :=
  h.read fun hwhat hfind => by
    simp only [Fields.get, Fields.getOr, Fields.require, hwhat, hfind]

theorem ScriptOperation.ofDatum_respelled (h : RespelledRecord d e) : ofDatum d = ofDatum e :=
  h.read fun hwhat hfind => by
    simp only [Fields.get, Fields.getOr, Fields.require, hwhat, hfind]

theorem Rule.ofDatum_respelled (h : RespelledRecord d e) : ofDatum d = ofDatum e :=
  h.read fun _ hfind => by simp only [Fields.get, Fields.getOr, hfind]

theorem Fallback.ofDatum_respelled (h : RespelledRecord d e) : ofDatum d = ofDatum e :=
  h.read fun _ hfind => by simp only [Fields.getOr, hfind]

theorem OperationSet.respelling_lists {names : List String}
    (hnames : ∀ name ∈ names, name ∈ ["registryOperations", "serviceOperations",
      "powerShellOperations", "scriptOperations", "fileOperations"]) :
    ∀ name ∈ names, respelling (Text.fold name) = Listed RespelledRecord :=
  fun name hname => if_pos (List.mem_map_of_mem (hnames name hname))

theorem OperationSet.ofDatum_respelled (h : Respelled d e) : ofDatum d = ofDatum e := by
  refine Recased.read respelling_keepsNull h fun hfg => ?_
  rw [hfg.each (respelling_lists (by decide)) RegistryOperation.ofDatum_respelled,
    hfg.each (respelling_lists (by decide)) ServiceOperation.ofDatum_respelled,
    hfg.each (respelling_lists (by decide)) ScriptOperation.ofDatum_respelled,
    hfg.each (respelling_lists (by decide)) FileOperation.ofDatum_respelled]

theorem RuleSet.respelling_rules :
    ∀ name ∈ ["rules"], respelling (Text.fold name) = Listed RespelledRecord := by
  intro name hname
  rw [List.mem_singleton.mp hname, respelling, if_pos rfl]

theorem RuleSet.respelling_fallback :
    ∀ name ∈ ["fallbackBehavior", "fallback"], respelling (Text.fold name) = RespelledRecord := by
  have hother : ∀ name ∈ ["fallbackBehavior", "fallback"], Text.fold name ≠ Text.fold "rules" := by
    decide +kernel
  intro name hname
  rw [respelling, if_neg (hother name hname), if_pos (List.mem_map_of_mem hname)]

/-- What stands in a rule set under other keys than those of its rules and its fallback stays. -/
theorem RuleSet.respelling_plain : ∀ name ∈ ["type", "logic", "customLogic"],
    respelling (Text.fold name) = Eq := by
  have hother : ∀ name ∈ ["type", "logic", "customLogic"], Text.fold name ≠ Text.fold "rules" ∧
      Text.fold name ∉ ["fallbackBehavior", "fallback"].map Text.fold := by decide +kernel
  intro name hname
  rw [respelling, if_neg (hother name hname).1, if_neg (hother name hname).2]

theorem RuleSet.ofDatum_respelled (h : Respelled d e) : ofDatum d = ofDatum e := by
  rcases h with h | h
  · cases h with
    | same => rfl
    | list hitems =>
      rw [ofDatum, ofDatum, mapM_related_items hitems Rule.ofDatum_respelled]
  have hread {f g : Fields} (hfg : f.Respell respelling g) : f.fallback = g.fallback ∧
      f.each ["rules"] Rule.ofDatum = g.each ["rules"] Rule.ofDatum ∧
      ∀ name ∈ ["type", "logic", "customLogic"], f.find? [name] = g.find? [name] :=
    ⟨match_related (hfg.first respelling_fallback) Fallback.ofDatum_respelled rfl,
      hfg.each respelling_rules Rule.ofDatum_respelled,
      fun name hname => hfg.find?_eq (by simpa using respelling_plain name hname)⟩
  cases h with
  | same => rfl
  | @object xs zs ys hn horder hfields =>
    show (Fields.ofDatum "Detection rules" (.object xs) >>= _) =
      (Fields.ofDatum "Detection rules" (.object ys) >>= _)
    refine Recased.read respelling_keepsNull (.object hn horder hfields) fun hfg => ?_
    obtain ⟨hfall, heach, hplain⟩ := hread hfg
    simp only [hfall, heach, Fields.logicWord, Fields.get, Fields.getOr, hplain "type" (by decide),
      hplain "logic" (by decide), hplain "customLogic" (by decide)]

/-! ## Reading a tweak -/

/-- What stands in a tweak under the key of a single value stays. -/
theorem Tweak.respelling_plain : ∀ name ∈ ["id", "name", "description", "category", "subCategory",
      "severity", "tags", "requiresRestart", "isReversible", "source", "version",
      "documentationUrl"],
    respelling (Text.fold name) = Eq := by
  have hother : ∀ name ∈ ["id", "name", "description", "category", "subCategory", "severity",
      "tags", "requiresRestart", "isReversible", "source", "version", "documentationUrl"],
      Text.fold name ∉ ["applyOperations", "operations", "undoOperations"].map Text.fold ∧
        Text.fold name ≠ Text.fold "detectionRules" := by decide +kernel
  intro name hname
  rw [respelling, if_neg (hother name hname).1, if_neg (hother name hname).2]

theorem Tweak.respelling_operations {names : List String}
    (hnames : ∀ name ∈ names, name ∈ ["applyOperations", "operations", "undoOperations"]) :
    ∀ name ∈ names, respelling (Text.fold name) = OperationSet.Respelled :=
  fun name hname => if_pos (List.mem_map_of_mem (hnames name hname))

theorem Tweak.respelling_rules :
    ∀ name ∈ ["detectionRules"], respelling (Text.fold name) = RuleSet.Respelled := by
  have hother : ∀ name ∈ ["detectionRules"],
      Text.fold name ∉ ["applyOperations", "operations", "undoOperations"].map Text.fold := by
    decide +kernel
  intro name hname
  rw [respelling, if_neg (hother name hname), if_pos (by rw [List.mem_singleton.mp hname])]

theorem Tweak.ofFields_respelled {f g : Fields} (h : f.Respell respelling g) (source : String) :
    ofFields f source = ofFields g source := by
  have hgetOr (name : String) (hname : name ∈ ["id", "name", "description", "category",
      "subCategory", "severity", "tags", "requiresRestart", "isReversible", "source", "version",
      "documentationUrl"]) (d : Datum) : f.getOr name d = g.getOr name d :=
    h.getOr_eq (respelling_plain name hname)
  have hid := h.require_eq (respelling_plain "id" (by decide))
  have happly : Option.Rel OperationSet.Respelled (f.find? ["applyOperations", "operations"])
      (g.find? ["applyOperations", "operations"]) := h.first (respelling_operations (by decide))
  have hundo : Option.Rel OperationSet.Respelled (f.find? ["undoOperations"])
      (g.find? ["undoOperations"]) := h.first (respelling_operations (by decide))
  have hurl := h.get_eq (respelling_plain "documentationUrl" (by decide))
  have hset {d e : Datum} {k k' : OperationSet → Except Failure Tweak}
      (hde : OperationSet.Respelled d e) (hk : ∀ operations, k operations = k' operations) :
      (OperationSet.ofDatum d >>= k) = (OperationSet.ofDatum e >>= k') := by
    rw [OperationSet.ofDatum_respelled hde, funext hk]
  simp (disch := decide) only [ofFields, Fields.tags, hid, hurl, hgetOr]
  refine bind_congr fun id => bind_congr fun severity => bind_congr fun tags => ?_
  -- the undo operations come last, whether there are operations or not
  refine match_related happly (fun hde => hset hde fun operations => ?_)
    (bind_congr fun operations => ?_)
  all_goals exact match_related hundo (fun hde => by rw [OperationSet.ofDatum_respelled hde]) rfl

/-- **The case and the order of keys do not matter:** when the keys of a definition, of its sets
of operations, its operations, its rule set, its rules and its fallback are written in other letter
case and in another order, the same tweak is read from it, or it is refused for the same reason. -/
theorem Tweak.read_alike (h : Tweak.Respelled d e) (source : String) :
    Tweak.ofDatum d source = Tweak.ofDatum e source := by
  refine Recased.read respelling_keepsNull h fun {f g} hfg => ?_
  rw [ofFields_respelled hfg source]
  refine congrArg (ofFields g source >>= ·) (funext fun t => ?_)
  exact match_related (hfg.first respelling_rules)
    (fun hde => by rw [RuleSet.ofDatum_respelled hde]) rfl

end

/-- A definition with every kind of object in it. -/
def spelledSample : Datum :=
  .object [
    ("id", .text "a"),
    ("detectionRules", .object [
      ("rules", .list [.object [("type", .text "FileExists"), ("filePath", .text "C:\\x")]]),
      ("fallback", .object [("isApplied", .bool true)])]),
    ("operations", .object [
      ("registryOperations", .list [.object [("hive", .text "CurrentUser"),
        ("keyPath", .text "Software\\X"), ("value", .object [("Kept", .int 1)])]]),
      ("scriptOperations", .list [.object [("script", .text "x"), ("runAsAdmin", .bool true)]])])]

/-- The same definition with its keys in capitals and in another order. -/
def respelledSample : Datum :=
  .object [
    ("DETECTIONRULES", .object [
      ("FALLBACK", .object [("ISAPPLIED", .bool true)]),
      ("RULES", .list [.object [("FILEPATH", .text "C:\\x"), ("TYPE", .text "FileExists")]])]),
    ("ID", .text "a"),
    ("OPERATIONS", .object [
      ("SCRIPTOPERATIONS", .list [.object [("RUNASADMIN", .bool true), ("SCRIPT", .text "x")]]),
      ("REGISTRYOPERATIONS", .list [.object [("KEYPATH", .text "Software\\X"),
        ("HIVE", .text "CurrentUser"), ("VALUE", .object [("Kept", .int 1)])]])])]

theorem sample_respelled : Tweak.Respelled spelledSample respelledSample := by
  -- values under the keys of lists and parts, by the spelling of these keys
  have hone {R S : Spelling} {d e : Datum} (hR : R = Listed S) (h : S d e) :
      R (.list [d]) (.list [e]) := hR ▸ .list (.cons h .nil)
  have hpart {R S : Spelling} {d e : Datum} (hR : R = S) (h : S d e) : R d e := hR ▸ h
  have hlists := OperationSet.respelling_lists
    (show ∀ name ∈ ["registryOperations", "scriptOperations"], _ by decide)
  have hsets := Tweak.respelling_operations (show ∀ name ∈ ["operations"], _ by decide)
  refine .object (by decide +kernel) (.swap ..) (.cons ⟨by decide +kernel, ?rules⟩
    (.cons ⟨by decide +kernel, ?id⟩ (.cons ⟨by decide +kernel, ?operations⟩ .nil)))
  case id => exact hpart (Tweak.respelling_plain "id" (by decide)) rfl
  case rules =>
    refine hpart (Tweak.respelling_rules "detectionRules" (by decide)) (.inr ?_)
    refine .object (by decide +kernel) (.swap ..) (.cons ⟨by decide +kernel, ?fallback⟩
      (.cons ⟨by decide +kernel, ?rule⟩ .nil))
    case fallback =>
      exact hpart (RuleSet.respelling_fallback "fallback" (by decide))
        (.object (by decide +kernel) (.refl _) (.cons ⟨by decide +kernel, rfl⟩ .nil))
    case rule =>
      exact hone (RuleSet.respelling_rules "rules" (by decide))
        (.object (by decide +kernel) (.swap ..)
          (.cons ⟨by decide +kernel, rfl⟩ (.cons ⟨by decide +kernel, rfl⟩ .nil)))
  case operations =>
    refine hpart (hsets "operations" (by decide)) ?_
    refine .object (by decide +kernel) (.swap ..) (.cons ⟨by decide +kernel, ?script⟩
      (.cons ⟨by decide +kernel, ?key⟩ .nil))
    case script =>
      exact hone (hlists "scriptOperations" (by decide))
        (.object (by decide +kernel) (.swap ..)
          (.cons ⟨by decide +kernel, rfl⟩ (.cons ⟨by decide +kernel, rfl⟩ .nil)))
    case key =>
      exact hone (hlists "registryOperations" (by decide))
        (.object (by decide +kernel) (.swap ..) (.cons ⟨by decide +kernel, rfl⟩
          (.cons ⟨by decide +kernel, rfl⟩ (.cons ⟨by decide +kernel, rfl⟩ .nil))))

/-- The sample is accepted in both forms, and read as the same tweak. -/
theorem sample_read_alike : (Tweak.ofDatum spelledSample "").isOk = true ∧
    Tweak.ofDatum spelledSample "" = Tweak.ofDatum respelledSample "" :=
  ⟨by decide +kernel, Tweak.read_alike sample_respelled ""⟩

end TweakEngine
