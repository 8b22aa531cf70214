/-
SigScan.Proofs.Registry.Confluence — registrations in any order.

Registrations come from many clients, each one a single step, and every order in which they
take turns is a permutation of them. A registry keeps of each name the registration that
came first (`find?_attemptAll`), and answers every other one by comparing it with that. The
answer that a registration gets is the answer that the registry at the end would still
give it (`fst_attemptAll`).

So all of a list are accepted exactly if each agrees with the first of its name, and as
agreement is an equivalence, exactly if any two of one name agree (`succeeds_iff`), which
says nothing of their order. Which spelling of a signature an entry keeps does depend on
the order, but two orders lead to registries that agree name by name (`agree_of_perm`).
-/
import SigScan.Proofs.Registry.Listing
import SigScan.Proofs.Session.History
import SigScan.Proofs.Signature.Observation

namespace SigScan

open Text.Utf8 (Increasing)

/-! ## Registrations -/

/-- A compiled signature that is registered under a name. -/
structure Registration where
  name : String
  signature : Signature
  /-- The resolved place holds a pointer to the object. -/
  deref : Bool

namespace Registration

/-- The entry that the registration makes if it is the first of its name. -/
def entry (a : Registration) : Entry :=
  ⟨a.name, a.signature, a.deref, .unresolved⟩

/-- Two registrations say the same, in whatever spelling. -/
def Agrees (a b : Registration) : Prop :=
  a.signature.isEquivalent b.signature = true ∧ a.deref = b.deref

/-- Any two registrations of one name say the same. -/
def Consistent (as : List Registration) : Prop :=
  ∀ a ∈ as, ∀ b ∈ as, a.name = b.name → a.Agrees b

theorem Agrees.refl (a : Registration) : a.Agrees a :=
  ⟨Signature.equivalence_isEquivalent.refl _, rfl⟩

theorem Agrees.symm {a b : Registration} (h : a.Agrees b) : b.Agrees a :=
  ⟨Signature.equivalence_isEquivalent.symm h.1, h.2.symm⟩

theorem Agrees.trans {a b c : Registration} (hab : a.Agrees b) (hbc : b.Agrees c) : a.Agrees c :=
  ⟨Signature.equivalence_isEquivalent.trans hab.1 hbc.1, hab.2.trans hbc.2⟩

instance (a b : Registration) : Decidable (a.Agrees b) :=
  inferInstanceAs (Decidable (_ ∧ _))

instance (as : List Registration) : Decidable (Consistent as) :=
  inferInstanceAs (Decidable (∀ a ∈ as, ∀ b ∈ as, a.name = b.name → a.Agrees b))

theorem consistent_iff_of_perm {as bs : List Registration} (h : as.Perm bs) :
    Consistent as ↔ Consistent bs := by
  simp only [Consistent, h.mem_iff]

/-- The first registration of a name. -/
def first? (as : List Registration) (name : String) : Option Registration :=
  as.find? fun a => a.name == name

theorem first?_cons (a : Registration) (as : List Registration) (name : String) :
    first? (a :: as) name = if name = a.name then some a else first? as name := by
  rw [first?, List.find?_cons]
  by_cases h : name = a.name
  · simp [h]
  · have hb : (a.name == name) = false := by simpa using fun heq : a.name = name => h heq.symm
    rw [hb, if_neg h]
    rfl

theorem mem_of_first? {as : List Registration} {name : String} {a : Registration}
    (h : first? as name = some a) : a ∈ as ∧ a.name = name :=
  ⟨List.mem_of_find?_eq_some h, by simpa using List.find?_some h⟩

theorem exists_first? {as : List Registration} {a : Registration} (h : a ∈ as) :
    ∃ b, first? as a.name = some b := by
  refine Option.isSome_iff_exists.1 (List.find?_isSome.2 ⟨a, h, ?_⟩)
  exact beq_self_eq_true a.name

end Registration

open Registration

namespace Registry

/-! ## Attempts -/

/-- Attempts a registration; one that is refused leaves nothing behind. -/
def attempt (r : Registry) (a : Registration) : Except Error Entry × Registry :=
  match r.register a.name a.signature a.deref with
  | .error e => (.error e, r)
  | .ok (e, r') => (.ok e, r')

/-- Attempts registrations one after another, whatever becomes of those before. -/
def attemptAll (r : Registry) : List Registration → List (Except Error Entry) × Registry
  | [] => ([], r)
  | a :: as =>
    let (reply, r') := r.attempt a
    let (replies, r'') := r'.attemptAll as
    (reply :: replies, r'')

theorem attemptAll_cons (r : Registry) (a : Registration) (as : List Registration) :
    r.attemptAll (a :: as) =
      ((r.attempt a).1 :: ((r.attempt a).2.attemptAll as).1, ((r.attempt a).2.attemptAll as).2) :=
  rfl

/-- All registrations are accepted by a registry that has no entries at first. -/
def Succeeds (as : List Registration) : Prop :=
  ∀ reply ∈ (empty.attemptAll as).1, ∃ e, reply = .ok e

/-- The same names have entries, which say the same. -/
def Agree (r r' : Registry) : Prop :=
  ∀ name, (r.find? name = none ∧ r'.find? name = none) ∨
    ∃ e e', r.find? name = some e ∧ r'.find? name = some e'
      ∧ e.signature.isEquivalent e'.signature = true ∧ e.deref = e'.deref

section

variable {r : Registry} {a : Registration} {e : Entry}

theorem attempt_of_find? (h : r.find? a.name = some e) :
    r.attempt a =
      (if agrees e a.signature a.deref then .ok e else .error (.duplicate a.name), r) := by
  unfold attempt
  rw [register_existing h]
  by_cases ha : agrees e a.signature a.deref = true
  · simp only [if_pos ha]
  · simp only [if_neg ha]

theorem attempt_of_find?_eq_none (h : r.find? a.name = none) :
    r.attempt a = (.ok a.entry, ⟨r.entries.insert a.name a.entry⟩) := by
  unfold attempt register
  rw [h]
  rfl

theorem agrees_entry_iff {b : Registration} :
    agrees b.entry a.signature a.deref = true ↔ b.Agrees a := by
  simp [agrees, Registration.Agrees, Registration.entry, and_comm]

/-- An attempt makes an entry only where there is none. -/
theorem find?_attempt (r : Registry) (a : Registration) (name : String) :
    (r.attempt a).2.find? name =
      (r.find? name).or (if name = a.name then some a.entry else none) := by
  cases hf : r.find? a.name with
  | some e =>
    rw [attempt_of_find? hf]
    by_cases hn : name = a.name
    · rw [hn, hf, Option.some_or]
    · rw [if_neg hn, Option.or_none]
  | none =>
    rw [attempt_of_find?_eq_none hf, find?, NameTable.find?_insert]
    by_cases hn : name = a.name
    · rw [if_pos hn, if_pos hn, hn, hf, Option.none_or]
    · rw [if_neg hn, if_neg hn, Option.or_none]
      rfl

theorem filed_attempt (h : r.Filed) (a : Registration) : (r.attempt a).2.Filed where
  name_eq name e hf := by
    rw [find?_attempt] at hf
    rcases Option.or_eq_some_iff.1 hf with hold | ⟨-, hnew⟩
    · exact h.name_eq name e hold
    · split at hnew
      · next hn =>
        obtain rfl := Option.some.inj hnew
        exact hn.symm
      · simp at hnew

theorem filed_attemptAll (h : r.Filed) (as : List Registration) : (r.attemptAll as).2.Filed := by
  induction as generalizing r with
  | nil => exact h
  | cons a as ih => exact ih (filed_attempt h a)

/-- Of each name the first registration is kept, unless there was an entry before. -/
theorem find?_attemptAll (r : Registry) (as : List Registration) (name : String) :
    (r.attemptAll as).2.find? name =
      (r.find? name).or ((first? as name).map Registration.entry) := by
  induction as generalizing r with
  | nil => exact Option.or_none.symm
  | cons a as ih =>
    rw [attemptAll_cons, ih, find?_attempt, Option.or_assoc, first?_cons]
    by_cases hn : name = a.name
    · rw [if_pos hn, if_pos hn, Option.some_or]
      rfl
    · rw [if_neg hn, if_neg hn, Option.none_or]

theorem find?_attemptAll_empty (as : List Registration) (name : String) :
    (empty.attemptAll as).2.find? name = (first? as name).map Registration.entry := by
  rw [find?_attemptAll]
  exact Option.none_or

/-! ## Answers -/

theorem find?_attempt_self (r : Registry) (a : Registration) :
    ∃ e, (r.attempt a).2.find? a.name = some e := by
  rw [find?_attempt, if_pos rfl]
  cases r.find? a.name with
  | none => exact ⟨_, rfl⟩
  | some e => exact ⟨e, rfl⟩

/-- An attempt that is made again gets the same answer. -/
theorem fst_attempt_attempt (r : Registry) (a : Registration) :
    ((r.attempt a).2.attempt a).1 = (r.attempt a).1 := by
  cases hf : r.find? a.name with
  | some e =>
    have hsame : (r.attempt a).2 = r := by rw [attempt_of_find? hf]
    rw [hsame]
  | none =>
    have hfind : (r.attempt a).2.find? a.name = some a.entry := by
      rw [find?_attempt, hf, Option.none_or, if_pos rfl]
    rw [attempt_of_find? hfind, attempt_of_find?_eq_none hf,
      if_pos (agrees_entry_iff.2 (Agrees.refl a))]

/-- Each registration gets the answer that the registry at the end would give it. -/
theorem fst_attemptAll (r : Registry) (as : List Registration) :
    (r.attemptAll as).1 = as.map fun a => ((r.attemptAll as).2.attempt a).1 := by
  induction as generalizing r with
  | nil => rfl
  | cons a as ih =>
    -- The name of `a` has its entry by now, and no later attempt replaces it.
    obtain ⟨e, he⟩ := find?_attempt_self r a
    have hlater : ((r.attempt a).2.attemptAll as).2.find? a.name = some e := by
      rw [find?_attemptAll, he, Option.some_or]
    have hfirst : (((r.attempt a).2.attemptAll as).2.attempt a).1 = (r.attempt a).1 := by
      rw [attempt_of_find? hlater, ← fst_attempt_attempt r a, attempt_of_find? he]
    rw [attemptAll_cons, List.map_cons, hfirst, ih]

end

/-! ## Orders -/

section

variable {as bs : List Registration}

/-- The registration is answered by the entry of the first one of its name. -/
theorem attempt_attemptAll_empty {a b : Registration} (h : first? as a.name = some b) :
    ((empty.attemptAll as).2.attempt a).1 =
      if agrees b.entry a.signature a.deref then .ok b.entry else .error (.duplicate a.name) := by
  have hf : (empty.attemptAll as).2.find? a.name = some b.entry := by
    rw [find?_attemptAll_empty, h, Option.map_some]
  rw [attempt_of_find? hf]

/-- All are accepted exactly if any two of one name say the same. -/
theorem succeeds_iff : Succeeds as ↔ Consistent as := by
  have hfirst : Succeeds as ↔ ∀ a ∈ as, ∀ b, first? as a.name = some b → b.Agrees a := by
    rw [Succeeds, fst_attemptAll]
    simp only [List.mem_map, forall_exists_index, and_imp, forall_apply_eq_imp_iff₂]
    refine forall₂_congr fun a ha => ?_
    obtain ⟨b, hb⟩ := exists_first? ha
    rw [attempt_attemptAll_empty hb]
    constructor
    · rintro ⟨e, he⟩ b' hb'
      obtain rfl := Option.some.inj (hb.symm.trans hb')
      refine agrees_entry_iff.1 (Decidable.byContradiction fun hn => ?_)
      simp [hn] at he
    · intro h
      exact ⟨b.entry, if_pos (agrees_entry_iff.2 (h b hb))⟩
  rw [hfirst]
  constructor
  · intro h a ha b hb hname
    obtain ⟨c, hc⟩ := exists_first? ha
    exact (h a ha c hc).symm.trans (h b hb c (hname ▸ hc))
  · intro h a ha b hb
    obtain ⟨hmem, hname⟩ := mem_of_first? hb
    exact h b hmem a ha hname

/-- What a consistent list is answered: the entry of the name, the same for all of them. -/
theorem reply_of_consistent (h : Consistent as) {i : Nat} {a : Registration}
    (hi : as[i]? = some a) :
    ∃ e, (empty.attemptAll as).1[i]? = some (.ok e)
      ∧ (empty.attemptAll as).2.find? a.name = some e
      ∧ e.signature.isEquivalent a.signature = true ∧ e.deref = a.deref := by
  have ha : a ∈ as := List.mem_of_getElem? hi
  obtain ⟨b, hb⟩ := exists_first? ha
  obtain ⟨hmem, hname⟩ := mem_of_first? hb
  have hagrees : b.Agrees a := h b hmem a ha hname
  refine ⟨b.entry, ?_, ?_, hagrees.1, hagrees.2⟩
  · rw [fst_attemptAll, List.getElem?_map, hi, Option.map_some, attempt_attemptAll_empty hb,
      if_pos (agrees_entry_iff.2 hagrees)]
  · rw [find?_attemptAll_empty, hb, Option.map_some]

theorem exists_find?_attemptAll_empty {name : String} :
    (∃ e, (empty.attemptAll as).2.find? name = some e) ↔ name ∈ as.map Registration.name := by
  rw [find?_attemptAll_empty]
  constructor
  · rintro ⟨e, he⟩
    obtain ⟨a, ha, -⟩ := Option.map_eq_some_iff.1 he
    obtain ⟨hmem, rfl⟩ := mem_of_first? ha
    exact List.mem_map_of_mem hmem
  · intro h
    obtain ⟨a, ha, rfl⟩ := List.mem_map.1 h
    obtain ⟨b, hb⟩ := exists_first? ha
    exact ⟨b.entry, by rw [hb, Option.map_some]⟩

/-- Two orders of a consistent list lead to registries that say the same. -/
theorem agree_of_perm (hperm : as.Perm bs) (h : Consistent as) :
    (empty.attemptAll as).2.Agree (empty.attemptAll bs).2 := by
  intro name
  rw [find?_attemptAll_empty, find?_attemptAll_empty]
  cases ha : first? as name with
  | none =>
    cases hb : first? bs name with
    | none => exact .inl ⟨rfl, rfl⟩
    | some b =>
      obtain ⟨hmem, rfl⟩ := mem_of_first? hb
      obtain ⟨c, hc⟩ := exists_first? (hperm.mem_iff.2 hmem)
      simp [hc] at ha
  | some a =>
    obtain ⟨hmem, rfl⟩ := mem_of_first? ha
    obtain ⟨b, hb⟩ := exists_first? (hperm.mem_iff.1 hmem)
    obtain ⟨hmem', hname⟩ := mem_of_first? hb
    have hagrees := h a hmem b (hperm.mem_iff.2 hmem') hname.symm
    exact .inr ⟨a.entry, b.entry, rfl, by rw [hb, Option.map_some], hagrees.1, hagrees.2⟩

end

end Registry

/-! ## Registered names of a session -/

namespace Session

section

variable {t : AddressTable} {calls : List Call} {name : String}

theorem exists_registered_of_registerAll {r : Registry} {ds : List Definition}
    (hnone : r.find? name = none) (h : (r.registerAll ds).2.find? name ≠ none) :
    ∃ before d after entries, ds = before ++ d :: after ∧ d.name = name
      ∧ (r.registerAll (before ++ [d])).1 = .ok entries := by
  induction ds generalizing r with
  | nil => exact absurd hnone h
  | cons d ds ih =>
    cases hr : r.registerDefinition d with
    | error error =>
      rw [Registry.registerAll, hr] at h
      exact absurd hnone h
    | ok p =>
      obtain ⟨e, r'⟩ := p
      by_cases hn : d.name = name
      · exact ⟨[], d, ds, [e], rfl, hn, by rw [List.nil_append, registerAll_cons_of_ok hr]; rfl⟩
      · have hnone' : r'.find? name = none := by
          obtain ⟨_, -, hreg⟩ := register_of_registerDefinition hr
          rw [Registry.find?_register hreg, if_neg fun heq => hn heq.symm, hnone]
        rw [registerAll_cons_of_ok hr] at h
        obtain ⟨before, d', after, entries, rfl, hn', hok⟩ := ih hnone' h
        refine ⟨d :: before, d', after, e :: entries, rfl, hn', ?_⟩
        rw [List.cons_append, registerAll_cons_of_ok hr, hok]
        rfl

theorem exists_accepts_of_step {c : Call} (hnone : t.registry.find? name = none)
    (h : (step t c).2.registry.find? name ≠ none) : ∃ d, d.name = name ∧ c.Accepts t d := by
  obtain ⟨e, he⟩ := Option.ne_none_iff_exists'.1 h
  obtain ⟨d, hd, -⟩ := exists_definition_step hnone he
  have hdefs : c.definitions ≠ [] := List.ne_nil_of_mem (List.mem_of_find?_eq_some hd)
  rw [snd_step_of_definitions t hdefs] at h
  obtain ⟨before, d', after, entries, hsplit, hn, hok⟩ := exists_registered_of_registerAll hnone h
  exact ⟨d', hn, before, after, entries, hsplit, hok⟩

/-- A name has an entry exactly if some call has registered it. -/
theorem exists_find?_run_iff (hnone : t.registry.find? name = none) :
    (∃ e, (run t calls).registry.find? name = some e) ↔
      ∃ d, d.name = name ∧ Accepted t calls d := by
  constructor
  · rintro ⟨e, he⟩
    induction calls generalizing t with
    | nil =>
      have hsome : t.registry.find? name = some e := he
      simp [hnone] at hsome
    | cons c calls ih =>
      cases hc : (step t c).2.registry.find? name with
      | none =>
        obtain ⟨d, hn, hd⟩ := ih hc he
        exact ⟨d, hn, hd.tail⟩
      | some e₀ =>
        have hne : (step t c).2.registry.find? name ≠ none := by simp [hc]
        obtain ⟨d, hn, hd⟩ := exists_accepts_of_step hnone hne
        exact ⟨d, hn, .head hd⟩
  · rintro ⟨d, rfl, hd⟩
    obtain ⟨t', c, after, haccepts, hrun⟩ := hd.exists_run_eq
    obtain ⟨e, he, -⟩ := says_of_accepts haccepts
    obtain ⟨e', he', -⟩ := exists_becomes_run after he
    exact ⟨e', hrun ▸ he'⟩

end

end Session

/-! ## Confluence -/

/-- What holds of registrations in whatever order they come. -/
structure Confluent (as : List Registration) : Prop where
  /-- All are accepted in one order exactly if any two of one name say the same. -/
  somewhere : (∃ order, order.Perm as ∧ Registry.Succeeds order) ↔ Consistent as
  /-- And exactly then they are accepted in every order. -/
  everywhere : (∀ order, order.Perm as → Registry.Succeeds order) ↔ Consistent as
  /-- All registrations of a name get the entry that the name has in the end. -/
  shared : Consistent as → ∀ order, order.Perm as → ∀ (i : Nat) (a : Registration),
    order[i]? = some a → ∃ e, (Registry.empty.attemptAll order).1[i]? = some (.ok e)
      ∧ (Registry.empty.attemptAll order).2.find? a.name = some e
      ∧ e.signature.isEquivalent a.signature = true ∧ e.deref = a.deref
  /-- Each of the names has one entry, and no other name has any. -/
  increasing : ∀ order, order.Perm as →
    Increasing ((Registry.empty.attemptAll order).2.all.map Entry.name)
  names : ∀ order, order.Perm as → ∀ name,
    name ∈ (Registry.empty.attemptAll order).2.all.map Entry.name ↔
      name ∈ as.map Registration.name
  agree : Consistent as → ∀ order order', order.Perm as → order'.Perm as →
    (Registry.empty.attemptAll order).2.Agree (Registry.empty.attemptAll order').2

/-- The lists of entries after some calls: names that increase by their bytes, all those that
some call has registered, and those of them whose entries are not settled. -/
structure ListedByName (start : AddressTable) (calls : List Session.Call) : Prop where
  all_increasing : Increasing ((Session.run start calls).registry.all.map Entry.name)
  mem_all : ∀ name, name ∈ (Session.run start calls).registry.all.map Entry.name ↔
    ∃ d, d.name = name ∧ Session.Accepted start calls d
  pending_increasing : Increasing ((Session.run start calls).registry.pending.map Entry.name)
  mem_pending : ∀ name, name ∈ (Session.run start calls).registry.pending.map Entry.name ↔
    ∃ e, (Session.run start calls).registry.find? name = some e ∧ e.isSettled = false

/-- Registrations lead to the same whatever their order, and a session lists its entries by
name. -/
theorem registrations_confluent (as : List Registration) (memory : Source)
    (regions : List Region) (config : Scan.Config) (calls : List Session.Call) :
    Confluent as ∧ ListedByName (.new memory regions config) calls := by
  have hperm : ∀ order, order.Perm as → (Registry.Succeeds order ↔ Consistent as) :=
    fun order h => Registry.succeeds_iff.trans (consistent_iff_of_perm h)
  have hfiled : ∀ order, (Registry.empty.attemptAll order).2.Filed :=
    Registry.filed_attemptAll Registry.filed_empty
  have hrun := (Session.wellFormed_run memory regions config calls).filed
  constructor
  · refine ⟨⟨?_, fun h => ⟨as, .refl as, (hperm as (.refl as)).2 h⟩⟩,
      ⟨fun h => (hperm as (.refl as)).1 (h as (.refl as)), fun h order ho => (hperm order ho).2 h⟩,
      ?_, fun order _ => (hfiled order).increasing_names_all, ?_, ?_⟩
    · rintro ⟨order, ho, hsucceeds⟩
      exact (hperm order ho).1 hsucceeds
    · intro h order ho i a hi
      exact Registry.reply_of_consistent ((consistent_iff_of_perm ho).2 h) hi
    · intro order ho name
      rw [(hfiled order).mem_names_all, Registry.exists_find?_attemptAll_empty,
        (ho.map Registration.name).mem_iff]
    · intro h order order' ho ho'
      exact Registry.agree_of_perm (ho.trans ho'.symm) ((consistent_iff_of_perm ho).2 h)
  · exact ⟨hrun.increasing_names_all,
      fun name => hrun.mem_names_all.trans (Session.exists_find?_run_iff rfl),
      hrun.increasing_names_pending, fun name => hrun.mem_names_pending⟩

/-- One call under two spellings, and another name between them. -/
def spelledTwice : List Registration :=
  [⟨"Tick", Signature.nearCall "E8 ?? ?? ?? ??" .nearCallOrJump, false⟩,
    ⟨"Draw", Signature.nearCall "E8 ?? ?? ?? ??" .nearCallOrJump, true⟩,
    ⟨"Tick", Signature.nearCall "e8 ? ? ? ?" .nearCallOrJump, false⟩]

/-- Both orders are accepted, and lead to registries that keep different spellings and yet
agree. -/
theorem registrations_confluent_spelledTwice :
    Registry.Succeeds spelledTwice.reverse
      ∧ (Registry.empty.attemptAll spelledTwice).2 ≠
        (Registry.empty.attemptAll spelledTwice.reverse).2
      ∧ (Registry.empty.attemptAll spelledTwice).2.Agree
        (Registry.empty.attemptAll spelledTwice.reverse).2 := by
  have hconfluent := (registrations_confluent spelledTwice (.ofContents UInt64.toUInt8) [] {} []).1
  have hconsistent : Consistent spelledTwice := by decide
  have hreverse : spelledTwice.reverse.Perm spelledTwice := List.reverse_perm _
  exact ⟨hconfluent.everywhere.2 hconsistent _ hreverse, by decide,
    hconfluent.agree hconsistent _ _ (.refl _) hreverse⟩

end SigScan
