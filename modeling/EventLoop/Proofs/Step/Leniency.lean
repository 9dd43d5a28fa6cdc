import EventLoop.Proofs.Number.Nearest
import EventLoop.Proofs.Step.Recordable

/-!
# What a reader of records overlooks

The reader of records takes more than the writer makes: members that it does not know, in any
order, names of queues that do not exist, and payloads that are `null`.  None of this is left
in the step that it reads (`Step.ofJson?_stable`):

* **One pass is enough.**  Whatever the reader takes, the record of the step is taken again
  and gives the same step.  Only numbers could be lost on the way, and the numbers of a text
  are within the range of records: an integer of 64 bits is near to a finite double.
* **What is overlooked does not count.**  Two records that are alike up to what the reader
  overlooks (`Step.RecordsAlike`) are read as the same step, or both are refused.
-/

namespace EventLoop

/-! ## Values of texts -/

namespace Json

mutual

/-- Whether a value can be read off a text: integers have 64 bits, other numbers are finite,
and no object has a key twice. -/
def isProper : Json → Bool
  | .int value => decide (-2 ^ 63 ≤ value) && decide (value < 2 ^ 64)
  | .float value => value.isFinite
  | .array elements => areProper elements
  | .object members => decide (members.map Prod.fst).Nodup && haveProper members
  | _ => true

/-- Whether all elements of an array can be read off a text. -/
def areProper : List Json → Bool
  | [] => true
  | element :: rest => isProper element && areProper rest

/-- Whether the values of all members of an object can be read off a text. -/
def haveProper : List (String × Json) → Bool
  | [] => true
  | (_, value) :: rest => isProper value && haveProper rest

end

theorem areProper_iff {elements : List Json} :
    areProper elements = true ↔ ∀ element ∈ elements, element.isProper = true := by
  induction elements with
  | nil => simp [areProper]
  | cons element rest ih => simp [areProper, ih]

theorem haveProper_iff {members : List (String × Json)} :
    haveProper members = true ↔ ∀ member ∈ members, member.2.isProper = true := by
  induction members with
  | nil => simp [haveProper]
  | cons member rest ih =>
      obtain ⟨key, value⟩ := member
      rw [haveProper, Bool.and_eq_true, ih, List.forall_mem_cons]

variable {members : List (String × Json)}

theorem nodup_of_isProper (h : (Json.object members).isProper = true) :
    (members.map Prod.fst).Nodup := by
  rw [isProper, Bool.and_eq_true] at h
  exact of_decide_eq_true h.1

theorem isProper_of_mem (h : (Json.object members).isProper = true) {key : String} {value : Json}
    (hmem : (key, value) ∈ members) : value.isProper = true := by
  rw [isProper, Bool.and_eq_true] at h
  exact haveProper_iff.1 h.2 (key, value) hmem

theorem isProper_of_lookup (h : (Json.object members).isProper = true) {key : String}
    {value : Json} (hlookup : members.lookup key = some value) : value.isProper = true :=
  isProper_of_mem h ((lookup_eq_some_iff_mem (nodup_of_isProper h)).1 hlookup)

/-- Whether a value is `null`. -/
def isNull : Json → Bool
  | .null => true
  | _ => false

/-- Objects with the same keys, in any order, whose contents of a key are alike. -/
structure MembersAlike (alike : String → Json → Json → Prop)
    (members others : List (String × Json)) : Prop where
  keys : (members.map Prod.fst).Perm (others.map Prod.fst)
  contents : ∀ key content other,
    (key, content) ∈ members → (key, other) ∈ others → alike key content other

/-- Where no key comes twice, what a reader makes of a key is the same for objects that are
alike, if it is the same for contents that are. -/
theorem MembersAlike.map_lookup {β : Type} {alike : String → Json → Json → Prop}
    {others : List (String × Json)} (h : MembersAlike alike members others)
    (hmembers : (members.map Prod.fst).Nodup) {key : String} {read : Json → β}
    (hread : ∀ content other, (key, content) ∈ members → (key, other) ∈ others →
      alike key content other → read content = read other) :
    (members.lookup key).map read = (others.lookup key).map read := by
  have hothers : (others.map Prod.fst).Nodup := h.keys.nodup_iff.1 hmembers
  cases hcontent : members.lookup key with
  | none =>
      have hother : others.lookup key = none := by
        rw [lookup_eq_none_iff_not_mem] at hcontent ⊢
        exact fun hmem => hcontent (h.keys.mem_iff.2 hmem)
      rw [hother]
  | some content =>
      rw [lookup_eq_some_iff_mem hmembers] at hcontent
      have hkey : key ∈ others.map Prod.fst :=
        h.keys.mem_iff.1 (List.mem_map.2 ⟨(key, content), hcontent, rfl⟩)
      obtain ⟨⟨name, other⟩, hother, rfl⟩ := List.mem_map.1 hkey
      rw [(lookup_eq_some_iff_mem hothers).2 hother, Option.map_some, Option.map_some,
        hread content other hcontent hother (h.contents _ content other hcontent hother)]

end Json

/-! ## Records that are alike -/

/-- A name that stands for the call stack: no other queue has it, in either spelling. -/
def Queue.IsStackName (name : String) : Prop :=
  name ∉ ["pendingAsync", "PendingAsync", "callbackQueue", "CallbackQueue", "deferredQueue",
    "DeferredQueue"]

instance : DecidablePred Queue.IsStackName := fun _ => inferInstanceAs (Decidable (¬ _))

theorem Queue.ofName_of_isStackName {name : String} (h : IsStackName name) :
    ofName name = .callStack := by
  simp only [IsStackName, List.mem_cons, List.not_mem_nil, or_false, not_or] at h
  simp [ofName, h]

/-- The members of a record of a value that are known to its reader. -/
def Value.known (members : List (String × Json)) : List (String × Json) :=
  members.filter fun member => member.1 = "t" ∨ member.1 = "v"

/-- Records of values that differ in unknown members and in the order of members only. -/
inductive Value.RecordsAlike : Json → Json → Prop
  | refl (record : Json) : RecordsAlike record record
  | objects {members others : List (String × Json)} (h : (known members).Perm (known others)) :
      RecordsAlike (.object members) (.object others)

namespace Step

/-- The members of a record that count: those that are known, without a payload of `null`. -/
def counted (members : List (String × Json)) : List (String × Json) :=
  members.filter fun member =>
    decide (member.1 ∈ memberNames) && !(decide (member.1 = "outputPayload") && member.2.isNull)

/-- Contents of a member that differ in what its reader overlooks only. -/
inductive ContentsAlike : String → Json → Json → Prop
  | refl (key : String) (content : Json) : ContentsAlike key content content
  | stackNames {name other : String} (hname : Queue.IsStackName name)
      (hother : Queue.IsStackName other) :
      ContentsAlike "targetQueue" (.text name) (.text other)
  | bindings {members others : List (String × Json)}
      (h : Json.MembersAlike (fun _ => Value.RecordsAlike) members others) :
      ContentsAlike "boundVariables" (.object members) (.object others)

/-- Records of steps that differ in unknown members, in the order of members, in a payload
that is `null` or missing, and in the name of the call stack only. -/
def RecordsAlike (members others : List (String × Json)) : Prop :=
  Json.MembersAlike ContentsAlike (counted members) (counted others)

end Step

/-! ## Reading values -/

namespace Value

/-- The number that is read off a text is finite. -/
theorem isFinite_ofJson? {record : Json} {value : Value} (hproper : record.isProper = true)
    (h : ofJson? record = some value) : value.isFinite = true := by
  have htag {tag : String} {content : Option Json}
      (hcontent : ∀ inner, content = some inner → inner.isProper = true)
      (htag : ofTag? tag content = some value) : value.isFinite = true := by
    unfold ofTag? at htag
    split at htag
    case h_6 number =>
      obtain rfl := Option.some.inj htag
      have hnumber := hcontent _ rfl
      rw [Json.isProper, Bool.and_eq_true, decide_eq_true_eq, decide_eq_true_eq] at hnumber
      exact Number.isFinite_nearest _ (by omega)
    case h_7 number =>
      obtain rfl := Option.some.inj htag
      exact hcontent _ rfl
    case h_10 => contradiction
    all_goals
      obtain rfl := Option.some.inj htag
      rfl
  unfold ofJson? at h
  split at h
  · rename_i members
    obtain ⟨tagged, -, h⟩ := Option.bind_eq_some_iff.1 h
    obtain ⟨tag, -, h⟩ := Option.bind_eq_some_iff.1 h
    exact htag (fun inner hinner => Json.isProper_of_lookup hproper hinner) h
  · rename_i tagged content
    obtain ⟨tag, -, h⟩ := Option.bind_eq_some_iff.1 h
    refine htag (fun inner hinner => ?_) h
    obtain rfl := Option.some.inj hinner
    rw [Json.isProper] at hproper
    exact Json.areProper_iff.1 hproper content (by simp)
  · contradiction

/-- Records that are alike are read as the same value. -/
theorem RecordsAlike.ofJson?_eq {record other : Json} (h : RecordsAlike record other)
    (hrecord : record.isProper = true) (hother : other.isProper = true) :
    ofJson? record = ofJson? other := by
  cases h with
  | refl => rfl
  | @objects members others h =>
      have hmembers := Json.nodup_of_isProper hrecord
      have hothers := Json.nodup_of_isProper hother
      have hlookup (key : String) (hkey : key = "t" ∨ key = "v") :
          members.lookup key = others.lookup key := by
        refine Option.ext fun content => ?_
        have hmem := h.mem_iff (a := (key, content))
        simp only [known, List.mem_filter, hkey, decide_true, and_true] at hmem
        rw [lookup_eq_some_iff_mem hmembers, lookup_eq_some_iff_mem hothers, hmem]
      simp only [ofJson?, hlookup "t" (.inl rfl), hlookup "v" (.inr rfl)]

end Value

namespace Step

/-! ## Reading bound variables -/

theorem lookup_of_readEntries {members : List (String × Json)} :
    ∀ {entries : List (String × Value)},
      (members.mapM fun (member : String × Json) =>
        (Value.ofJson? member.2).map fun value => (member.1, value)) = some entries →
      entries.map Prod.fst = members.map Prod.fst ∧
      ∀ name, (members.lookup name).map Value.ofJson? = (entries.lookup name).map some := by
  induction members with
  | nil =>
      rintro entries h
      obtain rfl := Option.some.inj h
      exact ⟨rfl, fun name => rfl⟩
  | cons member rest ih =>
      obtain ⟨key, content⟩ := member
      intro entries h
      rw [List.mapM_cons] at h
      obtain ⟨entry, hentry, h⟩ := Option.bind_eq_some_iff.1 h
      obtain ⟨others, hothers, h⟩ := Option.bind_eq_some_iff.1 h
      obtain ⟨value, hvalue, rfl⟩ := Option.map_eq_some_iff.1 hentry
      obtain rfl := Option.some.inj h
      obtain ⟨hkeys, hrest⟩ := ih hothers
      refine ⟨congrArg (key :: ·) hkeys, fun name => ?_⟩
      rw [List.lookup_cons, List.lookup_cons]
      cases name == key with
      | true => exact congrArg some hvalue
      | false => exact hrest name

theorem exists_readEntries {members : List (String × Json)}
    (h : ∀ member ∈ members, ∃ value, Value.ofJson? member.2 = some value) :
    ∃ entries, (members.mapM fun (member : String × Json) =>
      (Value.ofJson? member.2).map fun value => (member.1, value)) = some entries := by
  induction members with
  | nil => exact ⟨[], rfl⟩
  | cons member rest ih =>
      obtain ⟨⟨value, hvalue⟩, hrest⟩ := List.forall_mem_cons.1 h
      obtain ⟨entries, hentries⟩ := ih hrest
      refine ⟨(member.1, value) :: entries, ?_⟩
      rw [List.mapM_cons, hvalue, hentries]
      rfl

/-- An object is read as the table that has, for each of its keys, the value of the content. -/
theorem readVariables?_eq_some_iff {members : List (String × Json)}
    (hnodup : (members.map Prod.fst).Nodup) {table : Table Value} :
    readVariables? (.object members) = some table ↔
      ∀ name, (members.lookup name).map Value.ofJson? = (table.get? name).map some := by
  constructor
  · intro h
    obtain ⟨entries, hentries, rfl⟩ := Option.map_eq_some_iff.1 h
    obtain ⟨hkeys, hlookup⟩ := lookup_of_readEntries hentries
    intro name
    rw [Table.get?_ofList_of_nodup (hkeys ▸ hnodup)]
    exact hlookup name
  · intro h
    have hreads : ∀ member ∈ members, ∃ value, Value.ofJson? member.2 = some value := by
      rintro ⟨key, content⟩ hmem
      have hkey := h key
      rw [(lookup_eq_some_iff_mem hnodup).2 hmem] at hkey
      obtain ⟨value, -, hvalue⟩ := Option.map_eq_some_iff.1 hkey.symm
      exact ⟨value, hvalue.symm⟩
    obtain ⟨entries, hentries⟩ := exists_readEntries hreads
    obtain ⟨hkeys, hlookup⟩ := lookup_of_readEntries hentries
    rw [readVariables?, hentries, Option.map_some]
    refine congrArg some (Table.ext_get? fun name => ?_)
    rw [Table.get?_ofList_of_nodup (hkeys ▸ hnodup)]
    exact Option.map_injective (fun _ _ => Option.some.inj) ((hlookup name).symm.trans (h name))

/-- The numbers that are read off a text are finite. -/
theorem isFinite_readVariables? {content : Json} (hproper : content.isProper = true)
    {table : Table Value} (h : readVariables? content = some table) : table.isFinite = true := by
  cases content with
  | object members =>
      have hnodup := Json.nodup_of_isProper hproper
      rw [readVariables?_eq_some_iff hnodup] at h
      refine Table.isFinite_iff.2 ?_
      rintro ⟨name, value⟩ hentry
      have hname := h name
      rw [Table.mem_entries_iff.1 hentry] at hname
      obtain ⟨record, hrecord, hvalue⟩ := Option.map_eq_some_iff.1 hname
      exact Value.isFinite_ofJson? (Json.isProper_of_lookup hproper hrecord) hvalue
  | _ => contradiction

/-- Objects of values that are alike are read as the same table. -/
theorem readVariables?_eq {members others : List (String × Json)}
    (h : Json.MembersAlike (fun _ => Value.RecordsAlike) members others)
    (hmembers : (Json.object members).isProper = true)
    (hothers : (Json.object others).isProper = true) :
    readVariables? (.object members) = readVariables? (.object others) := by
  refine Option.ext fun table => ?_
  rw [readVariables?_eq_some_iff (Json.nodup_of_isProper hmembers),
    readVariables?_eq_some_iff (Json.nodup_of_isProper hothers)]
  refine forall_congr' fun name => ?_
  rw [h.map_lookup (Json.nodup_of_isProper hmembers) fun content other hcontent hother halike =>
    halike.ofJson?_eq (Json.isProper_of_mem hmembers hcontent)
      (Json.isProper_of_mem hothers hother)]

/-! ## Reading steps -/

theorem required_eq {β : Type} (members : List (String × Json)) (key : String)
    (read : Json → Option β) :
    required members key read = ((members.lookup key).map read).join := by
  unfold required
  cases members.lookup key <;> rfl

theorem optional_eq {β : Type} (members : List (String × Json)) (key : String)
    (read : Json → Option β) (value : β) :
    optional members key read value = ((members.lookup key).map read).getD (some value) := by
  unfold optional
  cases members.lookup key <;> rfl

/-- The queue of a content that is a name. -/
def readQueue? (content : Json) : Option Queue :=
  (readText? content).map Queue.ofName

/-- What the reader of a step makes of the members of an object. -/
theorem ofJson?_object (members : List (String × Json)) :
    ofJson? (.object members) =
      (required members "kind" readKind?).bind fun kind =>
      (required members "sourceLine" readNat?).bind fun sourceLine =>
      (required members "description" readText?).bind fun description =>
      (required members "action" readAction?).bind fun action =>
      (required members "isAsync" readBool?).bind fun isAsync =>
      (required members "delayMs" readNat?).bind fun delayMs =>
      (required members "targetQueue" readQueue?).bind fun targetQueue =>
      (optional members "priority" readPriority? .normal).bind fun priority =>
      (optional members "outputPayload" readPayload? none).bind fun outputPayload =>
      (optional members "boundVariables" readVariables? .empty).bind fun boundVariables =>
      some { kind, sourceLine, description, action, isAsync, delayMs, targetQueue, priority,
             outputPayload, boundVariables } := by
  have hqueue : required members "targetQueue" readQueue? =
      (required members "targetQueue" readText?).map Queue.ofName := by
    unfold required
    cases members.lookup "targetQueue" <;> rfl
  simp only [hqueue, Option.bind_map]
  rfl

/-! ## One pass is enough -/

theorem readNat?_le {content : Json} {n : Nat} (h : readNat? content = some n) :
    n ≤ maxRecordInt := by
  cases content with
  | int value =>
      obtain ⟨hrange, hn⟩ := Option.ite_none_right_eq_some.1 h
      have hvalue := Option.some.inj hn
      omega
  | _ => contradiction

/-- A step that is read off a text fits a record. -/
theorem isRecordable_ofJson? {members : List (String × Json)} {step : Step}
    (hproper : (Json.object members).isProper = true)
    (h : ofJson? (.object members) = some step) : step.isRecordable = true := by
  have hnat {key : String} {n : Nat} (hread : required members key readNat? = some n) :
      n ≤ maxRecordInt := by
    obtain ⟨content, -, hcontent⟩ := Option.bind_eq_some_iff.1 hread
    exact readNat?_le hcontent
  have hfinite {table : Table Value}
      (hread : optional members "boundVariables" readVariables? .empty = some table) :
      table.isFinite = true := by
    unfold optional at hread
    split at hread
    · rename_i content hlookup
      exact isFinite_readVariables? (Json.isProper_of_lookup hproper hlookup) hread
    · obtain rfl := Option.some.inj hread
      rfl
  rw [ofJson?_object] at h
  simp only [Option.bind_eq_some_iff] at h
  obtain ⟨kind, -, sourceLine, hline, description, -, action, -, isAsync, -, delayMs, hdelay,
    targetQueue, -, priority, -, outputPayload, -, boundVariables, hvariables, hstep⟩ := h
  obtain rfl := Option.some.inj hstep
  simp only [isRecordable, hnat hline, hnat hdelay, hfinite hvariables, decide_true, Bool.and_self]

/-! ## What is overlooked does not count -/

variable {members others : List (String × Json)}

theorem lookup_counted (h : (members.map Prod.fst).Nodup) {key : String}
    (hkey : key ∈ memberNames) (hpayload : key ≠ "outputPayload") :
    (counted members).lookup key = members.lookup key := by
  rw [counted, lookup_filter h]
  cases members.lookup key <;> simp [hkey, hpayload]

/-- A payload that is `null` is none, as a missing one is. -/
theorem optional_counted (h : (members.map Prod.fst).Nodup) :
    optional (counted members) "outputPayload" readPayload? none =
      optional members "outputPayload" readPayload? none := by
  unfold optional counted
  rw [lookup_filter h]
  cases members.lookup "outputPayload" with
  | none => rfl
  | some content => cases content <;> rfl

theorem nodup_counted (h : (members.map Prod.fst).Nodup) :
    ((counted members).map Prod.fst).Nodup :=
  h.sublist (List.filter_sublist.map _)

theorem ContentsAlike.eq {key : String} {content other : Json} (h : ContentsAlike key content other)
    (hqueue : key ≠ "targetQueue") (hvariables : key ≠ "boundVariables") : content = other := by
  cases h <;> trivial

theorem ContentsAlike.readQueue?_eq {content other : Json}
    (h : ContentsAlike "targetQueue" content other) : readQueue? content = readQueue? other := by
  generalize hkey : "targetQueue" = key at h
  cases h with
  | refl => rfl
  | stackNames hname hother =>
      simp only [readQueue?, readText?, Option.map_some, Queue.ofName_of_isStackName hname,
        Queue.ofName_of_isStackName hother]
  | bindings => exact absurd hkey (by decide)

theorem ContentsAlike.readVariables?_eq {content other : Json}
    (h : ContentsAlike "boundVariables" content other) (hcontent : content.isProper = true)
    (hother : other.isProper = true) : readVariables? content = readVariables? other := by
  generalize hkey : "boundVariables" = key at h
  cases h with
  | refl => rfl
  | stackNames => exact absurd hkey (by decide)
  | bindings h => exact Step.readVariables?_eq h hcontent hother

/-- Records that are alike are read as the same step, or both are refused. -/
theorem RecordsAlike.ofJson?_eq (h : RecordsAlike members others)
    (hmembers : (Json.object members).isProper = true)
    (hothers : (Json.object others).isProper = true) :
    ofJson? (.object members) = ofJson? (.object others) := by
  have hnodup := Json.nodup_of_isProper hmembers
  have hnodup' := Json.nodup_of_isProper hothers
  have hlookup {β : Type} {key : String} (hkey : key ∈ memberNames)
      (hpayload : key ≠ "outputPayload") {read : Json → β}
      (hread : ∀ content other, content.isProper = true → other.isProper = true →
        ContentsAlike key content other → read content = read other) :
      (members.lookup key).map read = (others.lookup key).map read := by
    rw [← lookup_counted hnodup hkey hpayload, ← lookup_counted hnodup' hkey hpayload]
    refine h.map_lookup (nodup_counted hnodup) fun content other hcontent hother =>
      hread content other ?_ ?_
    · exact Json.isProper_of_mem hmembers (List.mem_of_mem_filter hcontent)
    · exact Json.isProper_of_mem hothers (List.mem_of_mem_filter hother)
  have hplain {β : Type} (key : String) (read : Json → β)
      (hkey : key ∈ memberNames ∧ key ≠ "outputPayload" ∧ key ≠ "targetQueue" ∧
        key ≠ "boundVariables") : (members.lookup key).map read = (others.lookup key).map read :=
    hlookup hkey.1 hkey.2.1 fun _ _ _ _ halike => congrArg read (halike.eq hkey.2.2.1 hkey.2.2.2)
  have hqueue : (members.lookup "targetQueue").map readQueue? =
      (others.lookup "targetQueue").map readQueue? :=
    hlookup (by decide) (by decide) fun _ _ _ _ halike => halike.readQueue?_eq
  have hvariables : (members.lookup "boundVariables").map readVariables? =
      (others.lookup "boundVariables").map readVariables? :=
    hlookup (by decide) (by decide) fun _ _ hcontent hother halike =>
      halike.readVariables?_eq hcontent hother
  have hpayload : optional members "outputPayload" readPayload? none =
      optional others "outputPayload" readPayload? none := by
    rw [← optional_counted hnodup, ← optional_counted hnodup', optional_eq, optional_eq,
      h.map_lookup (nodup_counted hnodup) fun _ _ _ _ halike =>
        congrArg readPayload? (halike.eq (by decide) (by decide))]
  rw [ofJson?_object, ofJson?_object, hpayload]
  simp only [required_eq, optional_eq _ "priority", optional_eq _ "boundVariables", hqueue,
    hvariables, hplain "kind" _ (by decide), hplain "sourceLine" _ (by decide),
    hplain "description" _ (by decide), hplain "action" _ (by decide),
    hplain "isAsync" _ (by decide), hplain "delayMs" _ (by decide),
    hplain "priority" _ (by decide)]

/-- **Reading a record once makes it stable.**  Whatever object the reader takes for a step,
the record of the step is read as that step again.  And objects that are alike up to what the
reader overlooks are read as the same step, or both are refused. -/
theorem ofJson?_stable :
    (∀ members step, (Json.object members).isProper = true →
      ofJson? (.object members) = some step → ofJson? step.toJson = some step) ∧
    (∀ members others, (Json.object members).isProper = true →
      (Json.object others).isProper = true → RecordsAlike members others →
      ofJson? (.object members) = ofJson? (.object others)) := by
  refine ⟨fun members step hproper hread => ?_, fun members others hmembers hothers halike =>
    halike.ofJson?_eq hmembers hothers⟩
  rw [ofJson?_toJson, if_pos (isRecordable_ofJson? hproper hread)]

/-- A record as someone else may write it, and the same in other words. -/
theorem ofJson?_stable_mystery :
    let members : List (String × Json) :=
      [("kind", .text "expressionStatement"), ("sourceLine", .int 1),
       ("description", .text "mystery"), ("action", .text "statement"), ("isAsync", .bool false),
       ("delayMs", .int 0), ("targetQueue", .text "renderQueue"), ("outputPayload", .null),
       ("boundVariables", .object [("x", .object [("t", .text "Num"), ("v", .int 1)])])]
    let others : List (String × Json) :=
      [("note", .array []), ("delayMs", .int 0), ("targetQueue", .text "callStack"),
       ("boundVariables",
         .object [("x", .object [("v", .int 1), ("u", .null), ("t", .text "Num")])]),
       ("kind", .text "expressionStatement"), ("action", .text "statement"),
       ("isAsync", .bool false), ("description", .text "mystery"), ("sourceLine", .int 1)]
    RecordsAlike members others ∧ ∃ step, ofJson? step.toJson = some step ∧
      ofJson? (.object members) = some step ∧ ofJson? (.object others) = some step := by
  intro members others
  have hmembers : (Json.object members).isProper = true := by decide +kernel
  have hothers : (Json.object others).isProper = true := by decide +kernel
  have hsome : (ofJson? (.object members)).isSome = true := by decide +kernel
  have hbindings : Json.MembersAlike (fun _ => Value.RecordsAlike)
      [("x", .object [("t", .text "Num"), ("v", .int 1)])]
      [("x", .object [("v", .int 1), ("u", .null), ("t", .text "Num")])] := by
    refine ⟨.refl _, fun key content other hcontent hother => ?_⟩
    obtain ⟨-, rfl⟩ := Prod.mk.inj (List.mem_singleton.1 hcontent)
    obtain ⟨-, rfl⟩ := Prod.mk.inj (List.mem_singleton.1 hother)
    exact .objects (List.Perm.swap _ _ [])
  have halike : RecordsAlike members others := by
    refine ⟨by decide +kernel, fun key content other hcontent hother => ?_⟩
    simp only [members, others, counted, memberNames, Json.isNull] at hcontent hother
    simp at hcontent hother
    rcases hcontent with ⟨rfl, rfl⟩ | ⟨rfl, rfl⟩ | ⟨rfl, rfl⟩ | ⟨rfl, rfl⟩ | ⟨rfl, rfl⟩ |
      ⟨rfl, rfl⟩ | ⟨rfl, rfl⟩ | ⟨rfl, rfl⟩ <;> simp at hother <;> subst hother
    iterate 6 exact .refl _ _
    · exact .stackNames (by decide) (by decide)
    · exact .bindings hbindings
  obtain ⟨step, hstep⟩ := Option.isSome_iff_exists.1 hsome
  exact ⟨halike, step, ofJson?_stable.1 members step hmembers hstep, hstep,
    (ofJson?_stable.2 members others hmembers hothers halike).symm.trans hstep⟩

end Step

end EventLoop
