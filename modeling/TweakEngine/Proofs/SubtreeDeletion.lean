/-
# Removing a key with all keys below it

The platform removes a key only when there is none below it, so removing goes down to the lowest
keys first (`WindowsAccess.deleteTree`), and the keys below a key are asked for one after the other
until the platform refuses.  In a registry that is a tree (`RegistryTree.Rooted`), where nothing is
denied at or below the key, nothing but the key and what is below it goes, and all of that goes
(`WindowsAccess.deleteKey_removes`).  A registry stays a tree under every change, whether it
succeeds or not (`WindowsAccess.perform_rooted`).
-/

import TweakEngine.Proofs.RegistryTrees
import TweakEngine.System.Windows

namespace TweakEngine

/-! ## Keys that can be removed -/

namespace RegistryTree

/-- The key is stored and at most `depth` keys lie below it, none of which is denied. -/
structure Removable (t : RegistryTree) (depth : Nat) (k : KeyPlace) : Prop where
  rooted : t.Rooted
  stored : k ∈ Assoc.keys t.keys
  granted : ∀ k', covers k k' = true → k' ∉ t.denied
  bounded : (Assoc.keys t.keys).countP (covers k) ≤ depth + 1

variable {t : RegistryTree} {k c : KeyPlace} {name : String} {depth : Nat}

theorem openKey_ok (hk : k ∈ Assoc.keys t.keys) (hgranted : k ∉ t.denied) :
    ∃ values, t.openKey k = .ok values := by
  have hdenied : t.denied.contains k = false := by simpa using hgranted
  obtain ⟨values, hvalues⟩ := Option.isSome_iff_exists.mp (Assoc.has_iff.mpr hk)
  exact ⟨values, by rw [openKey, hdenied, if_neg Bool.false_ne_true, hvalues]⟩

theorem mem_of_openKey {values : Assoc String StoredValue} (h : t.openKey k = .ok values) :
    k ∈ Assoc.keys t.keys := by
  unfold openKey at h
  split at h
  · cases h
  · split at h
    · next hget => exact Assoc.has_iff.mp (Option.isSome_of_eq_some hget)
    · cases h

/-- Of a key that is not denied it can be told whether it is there. -/
theorem hasKey_eq (hgranted : k ∉ t.denied) : t.hasKey k = Assoc.has k t.keys := by
  have hdenied : t.denied.contains k = false := by simpa using hgranted
  rw [hasKey, openKey, hdenied, if_neg Bool.false_ne_true, Assoc.has]
  cases Assoc.get? k t.keys with
  | some values => rfl
  | none => rfl

namespace Removable

/-- Fewer keys lie at or below a child. -/
theorem child (h : t.Removable (depth + 1) k) (hname : name ∈ t.subkeys k) :
    t.Removable depth (child k name) where
  rooted := h.rooted
  stored := (mem_subkeys.mp hname).2
  granted k' hk' := h.granted k' (covers_trans (covers_child k name) hk')
  bounded := by
    obtain ⟨before, after, hsplit⟩ := List.append_of_mem h.stored
    have hmono : ∀ keys : List KeyPlace,
        keys.countP (covers (RegistryTree.child k name)) ≤ keys.countP (covers k) := fun keys =>
      List.countP_mono_left fun k' _ hk' => covers_trans (covers_child k name) hk'
    have hbounded := h.bounded
    rw [hsplit, List.countP_append, List.countP_cons_of_pos (covers_self k)] at hbounded
    rw [hsplit, List.countP_append, List.countP_cons_of_neg (by rw [not_covers_of_child]; decide)]
    have hbefore := hmono before
    have hafter := hmono after
    omega

/-- A key stays removable when keys elsewhere are removed. -/
theorem without (h : t.Removable depth k) (hc : covers c k = false) :
    (t.without c).Removable depth k where
  rooted := h.rooted.without c
  stored := mem_keep.mpr ⟨h.stored, by rw [hc]; rfl⟩
  granted := h.granted
  bounded := by
    rw [RegistryTree.without, keys_keep]
    exact Nat.le_trans List.filter_sublist.countP_le h.bounded

/-- A key with no room for keys below it has none. -/
theorem emptied_eq (h : t.Removable 0 k) : t.emptied k = t := by
  obtain ⟨before, after, hsplit⟩ := List.append_of_mem h.stored
  have hbounded := h.bounded
  rw [hsplit, List.countP_append, List.countP_cons_of_pos (covers_self k)] at hbounded
  have hbefore := List.countP_eq_zero.mp (show before.countP (covers k) = 0 by omega)
  have hafter := List.countP_eq_zero.mp (show after.countP (covers k) = 0 by omega)
  refine keep_self fun k' hk' => ?_
  rw [Bool.or_eq_true, beq_iff_eq, Bool.not_eq_true']
  rw [hsplit, List.mem_append, List.mem_cons] at hk'
  rcases hk' with hk' | rfl | hk'
  · exact .inr (Bool.eq_false_iff.mpr (hbefore k' hk'))
  · exact .inl rfl
  · exact .inr (Bool.eq_false_iff.mpr (hafter k' hk'))

end Removable
end RegistryTree

/-- The registry of the machine is a tree. -/
def Host.Rooted (h : Host Windows) : Prop := (WindowsAccess.registryPart.get h).Rooted

namespace WindowsAccess

open RegistryTree

variable {w : WindowsAccess} {h : Host Windows} {k : KeyPlace} {t : RegistryTree} {α : Type}

/-! ## Removing -/

theorem ask_on {α : Type} (f : RegistryTree → Except Failure α) (h : Host Windows) :
    (ask f).on h = (f (registryPart.get h), h) := rfl

theorem edit_on {f : RegistryTree → Except Failure RegistryTree}
    (hf : f (registryPart.get h) = .ok t) : (edit f).on h = (.ok (), registryPart.set t h) := by
  rw [edit, Part.on_lift, Act.on_of, hf]

/-- **The keys below a key are asked for until one is refused**, and these are all of them. -/
theorem subkeysFrom_on (k : KeyPlace) (h : Host Windows) : ∀ fuel index : Nat,
    ((registryPart.get h).subkeys k).length < index + fuel →
      (subkeysFrom k fuel index).on h = (.ok (((registryPart.get h).subkeys k).drop index), h) := by
  intro fuel
  induction fuel with
  | zero =>
    intro index hfuel
    rw [List.drop_eq_nil_of_le (by omega)]
    rfl
  | succ fuel ih =>
    intro index hfuel
    have hask := ask_on (fun t => t.subkeyAt k index) h
    rw [subkeysFrom]
    cases hname : ((registryPart.get h).subkeys k)[index]? with
    | none =>
      rw [subkeyAt, hname] at hask
      have hrefused : ((ask fun t => t.subkeyAt k index).rescue Failure.isSystem).on h =
        (.ok (.error noMore), h) := Act.rescue_of_error Failure.isSystem hask
      rw [Act.on_bind_of_ok hrefused, List.drop_eq_nil_of_le (List.getElem?_eq_none_iff.mp hname)]
      rfl
    | some name =>
      rw [subkeyAt, hname] at hask
      rw [Act.on_bind_of_ok (Act.rescue_of_ok Failure.isSystem hask)]
      dsimp only
      rw [Act.on_bind_of_ok (ih (index + 1) (by omega))]
      obtain ⟨hlt, rfl⟩ := List.getElem?_eq_some_iff.mp hname
      rw [Act.on_pure, List.drop_eq_getElem_cons hlt]

/-- A key that can be opened is opened, and the keys below it are all found. -/
theorem found_on {depth : Nat} {rest : List String → Call Windows α}
    (hk : (registryPart.get h).Removable depth k) :
    (do
      discard (ask fun t => t.openKey k)
      let keys ← ask fun t => .ok t.keys.length
      let below ← subkeysFrom k (keys + 1) 0
      rest below : Call Windows α).on h = (rest ((registryPart.get h).subkeys k)).on h := by
  obtain ⟨values, hvalues⟩ := openKey_ok hk.stored (hk.granted k (covers_self k))
  have hopened : (ask fun t => t.openKey k).on h = (.ok values, h) := by rw [ask_on, hvalues]
  have hcounted := ask_on (fun t => .ok t.keys.length) h
  have hlength := length_subkeys_le (registryPart.get h) k
  have hbelow := subkeysFrom_on k h ((registryPart.get h).keys.length + 1) 0 (by omega)
  rw [Act.discard_bind, Act.on_bind_of_ok hopened, Act.on_bind_of_ok hcounted,
    Act.on_bind_of_ok hbelow, List.drop_zero]

/-- Removing the keys with given names below a key, each with what is below it. -/
def deleteAll (depth : Nat) (k : KeyPlace) (names : List String) : Call Windows Unit := do
  for name in names do
    deleteTree depth (child k name)

/-- Of children that can be removed each is, and the others stay removable meanwhile. -/
theorem deleteAll_on {depth : Nat} (hstep : ∀ (c : KeyPlace) (h : Host Windows),
      (registryPart.get h).Removable depth c →
        (deleteTree depth c).on h = (.ok (), registryPart.set ((registryPart.get h).without c) h)) :
    ∀ (names : List String) (h : Host Windows), names.Nodup →
      (∀ name ∈ names, '\\' ∉ name.toList ∧
        (registryPart.get h).Removable depth (child k name)) →
      (deleteAll depth k names).on h =
        (.ok (), registryPart.set ((registryPart.get h).keep fun k' =>
          !names.any fun name => covers (child k name) k') h) := by
  intro names
  induction names with
  | nil =>
    intro h _ _
    have hkeep : ((registryPart.get h).keep fun k' =>
        !([] : List String).any fun name => covers (child k name) k') = registryPart.get h :=
      keep_self fun _ _ => rfl
    rw [hkeep]
    rfl
  | cons name names ih =>
    intro h hnodup hnames
    obtain ⟨hnew, hnodup⟩ := List.nodup_cons.mp hnodup
    have hfirst := hstep (child k name) h (hnames name List.mem_cons_self).2
    -- none of the other children is below this one
    have hrest := ih (registryPart.set ((registryPart.get h).without (child k name)) h) hnodup
      fun other hother => by
        obtain ⟨hplain, hother'⟩ := hnames other (List.mem_cons_of_mem _ hother)
        refine ⟨hplain, hother'.without (Bool.eq_false_iff.mpr fun hc => hnew ?_)⟩
        rwa [← name_of_covers hplain hc]
    have hloop : deleteAll depth k (name :: names) =
        (deleteTree depth (child k name) >>= fun _ => deleteAll depth k names) := by
      simp only [deleteAll, List.forIn_cons, bind_assoc, pure_bind]
    have hkeep : ((registryPart.get h).without (child k name)).keep (fun k' =>
          !names.any fun name => covers (child k name) k') =
        (registryPart.get h).keep fun k' =>
          !(name :: names).any fun name => covers (child k name) k' := by
      simp only [without, keep_keep, List.any_cons, Bool.not_or]
    rw [hloop, Act.on_bind_of_ok hfirst, hrest, ← hkeep]
    rfl

/-- **A key is removed with all that is below it**, level by level. -/
theorem deleteTree_on : ∀ (depth : Nat) (k : KeyPlace) (h : Host Windows),
    (registryPart.get h).Removable depth k → (deleteTree depth k).on h =
      (.ok (), registryPart.set ((registryPart.get h).without k) h) := by
  intro depth
  induction depth with
  | zero =>
    intro k h hk
    have hleaf := hk.rooted.removeLeaf_emptied hk.stored
    rw [hk.emptied_eq] at hleaf
    unfold deleteTree
    rw [found_on hk]
    exact edit_on hleaf
  | succ depth ih =>
    intro k h hk
    have hchildren := deleteAll_on ih ((registryPart.get h).subkeys k) h
      (hk.rooted.nodup_subkeys k) fun name hname => ⟨(mem_subkeys.mp hname).1, hk.child hname⟩
    rw [hk.rooted.keep_children] at hchildren
    have hleaf : (edit fun t => t.removeLeaf k).on
        (registryPart.set ((registryPart.get h).emptied k) h) =
          (.ok (), registryPart.set ((registryPart.get h).without k) h) :=
      edit_on (hk.rooted.removeLeaf_emptied hk.stored)
    unfold deleteTree
    rw [found_on hk]
    -- the children are gone when the key itself is removed
    rw [← Act.on_bind_of_ok (k := fun _ => edit fun t => t.removeLeaf k) hchildren, deleteAll,
      bind_assoc] at hleaf
    exact hleaf

/-- **Removing a key takes away the key and all that is below it, and nothing else**, and tells
whether there was one. -/
theorem deleteKey_removes (hw : w.available = true) (hive : Hive) (path : String)
    (hrooted : h.Rooted)
    (hgranted : ∀ k, covers (placeOf hive path) k = true → k ∉ (registryPart.get h).denied) :
    (w.perform (.deleteKey hive (.text path))).on h =
        (.ok (Assoc.has (placeOf hive path) (registryPart.get h).keys),
          registryPart.set ((registryPart.get h).without (placeOf hive path)) h) ∧
      ∀ k, Assoc.get? k ((registryPart.get h).without (placeOf hive path)).keys =
        if covers (placeOf hive path) k then none else Assoc.get? k (registryPart.get h).keys := by
  refine ⟨?_, get?_without _ _⟩
  have hmutator : w.requireMutator.on h = (.ok (), h) := by rw [requireMutator, if_pos hw]; rfl
  have hprobe : w.requireProbe.on h = (.ok (), h) := by rw [requireProbe, if_pos hw]; rfl
  have hplace : (Act.result (place hive (.text path)) : Call Windows KeyPlace).on h =
      (.ok (placeOf hive path), h) := by rw [place_text]; rfl
  have hthere : (w.keyExists hive (.text path)).on h =
      (.ok (Assoc.has (placeOf hive path) (registryPart.get h).keys), h) := by
    rw [keyExists, Act.on_bind_of_ok hprobe, Act.on_bind_of_ok hplace, ask_on,
      hasKey_eq (hgranted _ (covers_self _))]
  rw [perform, Act.on_bind_of_ok hmutator, deleteKey, Act.on_bind_of_ok hthere]
  cases hhas : Assoc.has (placeOf hive path) (registryPart.get h).keys with
  | false =>
    have hmissing : placeOf hive path ∉ Assoc.keys (registryPart.get h).keys := fun hmem => by
      rw [Assoc.has_iff.mpr hmem] at hhas
      cases hhas
    rw [hrooted.without_missing hmissing]
    rfl
  | true =>
    have hcounted := ask_on (fun t => .ok t.keys.length) h
    have hbounded : (Assoc.keys (registryPart.get h).keys).countP (covers (placeOf hive path)) ≤
        (registryPart.get h).keys.length + 1 := by
      refine Nat.le_trans List.countP_le_length ?_
      rw [Assoc.keys, List.length_map]
      omega
    have hdeleted := deleteTree_on (registryPart.get h).keys.length (placeOf hive path) h
      ⟨hrooted, Assoc.has_iff.mp hhas, hgranted, hbounded⟩
    simp only [Bool.not_true, Bool.false_eq_true, if_false]
    rw [Act.on_bind_of_ok hplace, Act.on_bind_of_ok hcounted, Act.on_bind_of_ok hdeleted]
    rfl

/-- A key with a branch of keys below it, beside one with a longer name. -/
def sampleTree : RegistryTree :=
  ["Software\\Tweaks\\Old\\Deep", "Software\\Tweaks\\New", "Software\\TweakSheet"].foldl
    (fun t path => t.add (placeOf .currentUser path)) {}

theorem sampleTree_rooted : sampleTree.Rooted := (((Rooted.empty []).add _).add _).add _

/-- A machine with this registry. -/
def sampleWindows : Host Windows := { machine := { registry := sampleTree } }

theorem sample_branch_gone : sampleWindows.Rooted ∧ ∃ h : Host Windows,
    (({} : WindowsAccess).perform (.deleteKey .currentUser (.text "SOFTWARE\\Tweaks"))).on
      sampleWindows = (.ok true, h) ∧
    Assoc.keys (registryPart.get h).keys =
      [(.currentUser, "software"), (.currentUser, "software\\tweaksheet")] := by
  obtain ⟨hremoved, -⟩ := deleteKey_removes (w := {}) (h := sampleWindows) rfl .currentUser
    "SOFTWARE\\Tweaks" sampleTree_rooted fun _ _ => List.not_mem_nil
  have hthere : Assoc.has (placeOf .currentUser "SOFTWARE\\Tweaks")
      (registryPart.get sampleWindows).keys = true := by decide +kernel
  have hleft : Assoc.keys ((registryPart.get sampleWindows).without
      (placeOf .currentUser "SOFTWARE\\Tweaks")).keys =
        [(.currentUser, "software"), (.currentUser, "software\\tweaksheet")] := by decide +kernel
  rw [hthere] at hremoved
  exact ⟨sampleTree_rooted, _, hremoved, hleft⟩

/-! ## The registry stays a tree -/

theorem rooted_of_keeps {a : Call Windows α} (ha : a.Keeps Host.machine) :
    a.Preserves Host.Rooted :=
  ha.preserves fun m => m.registry.Rooted

/-- What only reads does not matter. -/
theorem rooted_after {β : Type} {a : Call Windows α} {rest : α → Call Windows β}
    (ha : a.Keeps Host.machine) (hrest : ∀ x, (rest x).Preserves Host.Rooted) :
    (a >>= rest).Preserves Host.Rooted :=
  .bind (rooted_of_keeps ha) hrest

theorem ask_keeps (f : RegistryTree → Except Failure α) : (ask f).Keeps Host.machine := fun _ => rfl

theorem requireProbe_keeps (w : WindowsAccess) : w.requireProbe.Keeps Host.machine := by
  unfold requireProbe
  split
  · exact .pure ()
  · exact .throw _

theorem requireMutator_keeps (w : WindowsAccess) : w.requireMutator.Keeps Host.machine := by
  unfold requireMutator
  split
  · exact .pure ()
  · exact .throw _

theorem requireProbe_on {w : WindowsAccess} (hw : w.available = true) (h : Host Windows) :
    w.requireProbe.on h = (.ok (), h) := by rw [requireProbe, if_pos hw]; rfl

theorem requireMutator_on {w : WindowsAccess} (hw : w.available = true) (h : Host Windows) :
    w.requireMutator.on h = (.ok (), h) := by rw [requireMutator, if_pos hw]; rfl

theorem keyExists_keeps (w : WindowsAccess) (hive : Hive) (path : Datum) :
    (w.keyExists hive path).Keeps Host.machine :=
  .bind w.requireProbe_keeps fun _ => .bind (.result _) fun _ => ask_keeps _

theorem subkeysFrom_keeps (k : KeyPlace) : ∀ fuel index : Nat,
    (subkeysFrom k fuel index).Keeps Host.machine
  | 0, _ => .pure []
  | fuel + 1, index => by
    refine .bind (.rescue (ask_keeps _) _) fun name? => ?_
    cases name? with
    | ok name => exact .bind (subkeysFrom_keeps k fuel (index + 1)) fun _ => .pure _
    | error f => exact .pure []

/-- A change that leaves a tree when it can be made. -/
theorem edit_rooted {f : RegistryTree → Except Failure RegistryTree}
    (hf : ∀ t t', t.Rooted → f t = .ok t' → t'.Rooted) : (edit f).Preserves Host.Rooted := by
  intro h hs
  rw [edit, Part.on_lift, Act.on_of]
  cases hedit : f (registryPart.get h) with
  | error e => exact hs
  | ok t => exact hf _ t hs hedit

theorem createKey_rooted {t t' : RegistryTree} (ht : t.Rooted) (h : t.createKey k = .ok t') :
    t'.Rooted ∧ k ∈ Assoc.keys t'.keys := by
  unfold RegistryTree.createKey at h
  split at h
  · cases h
  · cases h
    exact ⟨ht.add k, mem_keys_add.mpr (.inr (covers_self k))⟩

theorem setValue_rooted (hive : Hive) (path name : Datum) (value : RegistryValue) :
    (setValue hive path name value).Preserves Host.Rooted := by
  refine rooted_after (.result _) fun k => rooted_after (.result _) fun n =>
    .bind (edit_rooted fun t t' ht h => ?_) fun _ => rooted_of_keeps fun _ => rfl
  obtain ⟨t₁, hcreate, h⟩ := ok_of_bind h
  obtain ⟨values, -, h⟩ := ok_of_bind h
  cases h
  obtain ⟨ht₁, hk⟩ := createKey_rooted ht hcreate
  exact ht₁.putValues hk _

theorem deleteValue_rooted (hive : Hive) (path name : Datum) :
    (deleteValue hive path name).Preserves Host.Rooted := by
  refine rooted_after (.result _) fun k => rooted_after (.result _) fun n => ?_
  intro h hs
  have hasked : (ask fun t => t.openKey k).attempt.on h =
      (.ok ((registryPart.get h).openKey k), h) := rfl
  rw [Act.on_bind_of_ok hasked]
  cases hopen : (registryPart.get h).openKey k with
  | error f =>
    dsimp only
    split <;> exact hs
  | ok values =>
    exact hs.putValues (mem_of_openKey hopen) _

theorem deleteTree_rooted : ∀ (depth : Nat) (k : KeyPlace),
    (deleteTree depth k).Preserves Host.Rooted := by
  have hleaf : ∀ k, (edit fun t => t.removeLeaf k).Preserves Host.Rooted := fun k =>
    edit_rooted fun t t' ht h => ht.removeLeaf h
  intro depth
  induction depth with
  | zero =>
    intro k
    unfold deleteTree
    exact rooted_after (.discard (ask_keeps _)) fun _ => rooted_after (ask_keeps _)
      fun keys => rooted_after (subkeysFrom_keeps k _ _) fun _ => hleaf k
  | succ depth ih =>
    intro k
    unfold deleteTree
    exact rooted_after (.discard (ask_keeps _)) fun _ => rooted_after (ask_keeps _)
      fun keys => rooted_after (subkeysFrom_keeps k _ _) fun below =>
      .bind (Act.Preserves.loop (fun name => ih _) below) fun _ => hleaf k

theorem deleteKey_rooted (w : WindowsAccess) (hive : Hive) (path : Datum) :
    (w.deleteKey hive path).Preserves Host.Rooted := by
  refine rooted_after (w.keyExists_keeps hive path) fun there => ?_
  cases there with
  | false => exact rooted_of_keeps (.pure false)
  | true =>
    exact rooted_after (.result _) fun k => rooted_after (ask_keeps _) fun keys =>
      .bind (deleteTree_rooted keys k) fun _ => rooted_of_keeps (.pure true)

theorem command_keeps (argv : List Datum) (timeout : Datum) :
    (Host.command argv timeout : Call Windows ShellResult).Keeps Host.machine :=
  .command (fun _ _ _ => rfl) argv timeout

theorem controlService_keeps (w : WindowsAccess) (verb word options : String) (service : Datum) :
    (w.controlService verb word options service).Keeps Host.machine := by
  refine .bind (.result _) fun name => .bind (command_keeps _ _) fun result => ?_
  split
  · exact .throw _
  · exact .pure ()

theorem setStartup_keeps (w : WindowsAccess) (service : Datum) (startup : StartupType) :
    (w.setStartup service startup).Keeps Host.machine := by
  unfold setStartup
  split
  · exact .throw _
  · refine .bind (command_keeps _ _) fun result => ?_
    split
    · exact .throw _
    · exact .pure ()

theorem runScript_keeps (script timeout : Datum) (elevated : Bool) :
    (runScript script timeout elevated).Keeps Host.machine := by
  unfold runScript
  extract_lets argv finish limited
  have hfinish : ∀ x, (finish x).Keeps Host.machine := by
    rintro ⟨command, limit⟩
    refine .bind (fun _ => rfl) fun answer => ?_
    cases answer with
    | timedOut stdout => exact .bind (fun _ => rfl) fun _ => .pure _
    | failed e =>
      dsimp only
      split <;> exact .throw _
    | ended code stdout stderr =>
      dsimp only
      split
      · exact .pure _
      · split
        · exact .bind (fun _ => rfl) fun _ => .pure _
        · exact .pure _
  split
  · have hlimited : ∀ text, (limited text).Keeps Host.machine := fun text =>
      .bind (.result _) fun millis => .bind (.pure _) hfinish
    cases script with
    | text s => exact .bind (.pure s) hlimited
    | _ => exact .bind (.throw _) hlimited
  · exact .bind (.pure _) hfinish

theorem expand_keeps (w : WindowsAccess) (path : Datum) : (w.expand path).Keeps Host.machine := by
  refine .bind (.view _) fun home => ?_
  cases path <;> exact .result _

theorem onDisk_keeps (a : Act Disk α) : (Host.onDisk a : Call Windows α).Keeps Host.machine :=
  fun _ => rfl

/-- **The registry stays a tree** under every change, whether it succeeds or not. -/
theorem perform_rooted (w : WindowsAccess) (c : Write) : (w.perform c).Preserves Host.Rooted := by
  have hmutator : w.requireMutator.Preserves Host.Rooted := rooted_of_keeps w.requireMutator_keeps
  cases c with
  | setValue hive path name value => exact .bind hmutator fun _ => setValue_rooted _ _ _ _
  | deleteValue hive path name => exact .bind hmutator fun _ => deleteValue_rooted _ _ _
  | createKey hive path =>
    exact .bind hmutator fun _ => rooted_after (w.keyExists_keeps hive path) fun there =>
      rooted_after (.result _) fun k =>
      .bind (edit_rooted fun t t' ht h => (createKey_rooted ht h).1) fun _ =>
      rooted_of_keeps (.pure _)
  | deleteKey hive path => exact .bind hmutator fun _ => w.deleteKey_rooted hive path
  | stopService service | startService service =>
    exact .bind hmutator fun _ => rooted_of_keeps (w.controlService_keeps _ _ _ _)
  | setStartup service startup =>
    exact .bind hmutator fun _ => rooted_of_keeps (w.setStartup_keeps service startup)
  | runScript script timeout elevated =>
    exact .bind hmutator fun _ => rooted_of_keeps (runScript_keeps _ _ _)
  | writeFile path content createDirectories =>
    refine rooted_of_keeps (.bind (w.expand_keeps path) fun p => ?_)
    dsimp only
    split
    case' isTrue => refine .bind (onDisk_keeps _) fun _ => ?_
    -- with or without new directories, the content comes next
    all_goals
      split
      · exact onDisk_keeps _
      · exact .throw _
  | createDirectory path =>
    exact rooted_of_keeps (.bind (w.expand_keeps path) fun p => onDisk_keeps _)
  | deletePath path =>
    refine rooted_of_keeps (.bind (w.expand_keeps path) fun p =>
      .bind (onDisk_keeps _) fun dir => ?_)
    split <;> exact onDisk_keeps _
  | movePath source target =>
    exact rooted_of_keeps (.bind (w.expand_keeps _) fun a => .bind (w.expand_keeps _) fun b =>
      onDisk_keeps _)
  | copyPath source target =>
    refine rooted_of_keeps (.bind (w.expand_keeps _) fun a => .bind (w.expand_keeps _) fun b =>
      .bind (onDisk_keeps _) fun dir => ?_)
    split
    · exact onDisk_keeps _
    · exact .bind (onDisk_keeps _) fun _ => onDisk_keeps _

end WindowsAccess

end TweakEngine
