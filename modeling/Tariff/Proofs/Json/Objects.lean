import Tariff.Proofs.Json.Numbers
import Tariff.Proofs.Json.Strings
import Tariff.Proofs.Table

/-!
# Objects in JSON

What the writer makes of a value, and what the reader makes of that. `Conveys v w` says
that `v` has a text, and that the text is read as `w`. Scalars are conveyed as they are
(`conveys_scalar`), and a mapping with text keys is conveyed in the order of its keys, if
no key occurs twice (`conveys_mapping`).

`Spells` is what a reader in the midst of a text needs to know: a value is taken from the
front of what is left, up to the delimiter, by any reader that is allowed as many calls
as the value has characters.
-/

namespace Tariff.Json

/-- Whether a text is read as a value wherever it stands. -/
structure Spells (text : List Char) (v : Value) : Prop where
  ne_nil : text ≠ []
  head : ∀ c, text.head? = some c → isSpace c = false
  read : ∀ bound rest, text.length ≤ bound → Delimited rest →
    readValue bound (text ++ rest) = .ok (v, rest)

/-- Whether the text of a value is read as another. -/
def Conveys (v w : Value) : Prop := ∃ text, valueText v = .ok text ∧ Spells text w

theorem skipSpace_of_head {cs : List Char} (h : ∀ c, cs.head? = some c → isSpace c = false) :
    skipSpace cs = cs := by
  unfold skipSpace
  cases cs with
  | nil => rfl
  | cons c rest => rw [List.dropWhile_cons_of_neg (by rw [h c rfl]; decide)]

theorem skipSpace_cons {c : Char} (hc : isSpace c = false) (cs : List Char) :
    skipSpace (c :: cs) = c :: cs := by
  refine skipSpace_of_head fun d hd => ?_
  rwa [← Option.some.inj hd]

theorem Spells.skipSpace_append {text : List Char} {v : Value} (h : Spells text v)
    (rest : List Char) : skipSpace (text ++ rest) = text ++ rest := by
  refine skipSpace_of_head fun c hc => h.head c ?_
  rwa [List.head?_append_of_ne_nil _ h.ne_nil] at hc

/-! ## Scalars -/

theorem isSpace_of_isAsciiDigit {c : Char} (hc : Text.isAsciiDigit c = true ∨ c = '-') :
    isSpace c = false := by
  rcases hc with hc | rfl
  · rw [Bool.eq_false_iff]
    intro hspace
    unfold isSpace at hspace
    simp only [Bool.or_eq_true, beq_iff_eq] at hspace
    rcases hspace with ((rfl | rfl) | rfl) | rfl <;> cases hc
  · rfl

theorem readValue_boolText (b : Bool) (bound : Nat) (rest : List Char) :
    readValue (bound + 1) (boolText b ++ rest) = .ok (.bool b, rest) := by
  cases b <;> rfl

theorem readValue_stringText (s : String) (bound : Nat) (rest : List Char) :
    readValue (bound + 1) (stringText s ++ rest) = .ok (.text s, rest) := by
  unfold stringText
  rw [List.cons_append, List.cons_append, List.append_assoc, readValue]
  rw [List.singleton_append, readString_flatMap_charText]
  show Except.ok (Value.text (String.ofList s.toList), rest) = _
  rw [String.ofList_toList]

/-- What reads a value from any bound that is not zero reads it from one that is large
enough. -/
theorem spells_of_cons {c : Char} {cs : List Char} {v : Value} (hc : isSpace c = false)
    (h : ∀ bound rest, Delimited rest → readValue (bound + 1) (c :: cs ++ rest) = .ok (v, rest)) :
    Spells (c :: cs) v := by
  refine ⟨by simp, ?_, ?_⟩
  · intro d hd
    rwa [← Option.some.inj hd]
  · intro bound rest hbound hrest
    cases bound with
    | zero => exact absurd hbound (by simp)
    | succ bound => exact h bound rest hrest

/-- The text of a scalar is read as the scalar. -/
theorem spells_scalarText {s : Scalar} {text : List Char} (h : scalarText s = .ok text) :
    Spells text (.scalar s) := by
  cases s with
  | bool b =>
    cases h
    cases b with
    | true => exact spells_of_cons rfl fun bound rest _ => readValue_boolText true bound rest
    | false => exact spells_of_cons rfl fun bound rest _ => readValue_boolText false bound rest
  | number n =>
    obtain ⟨c, cs, rfl, hc⟩ := exists_cons_of_numberText h
    exact spells_of_cons (isSpace_of_isAsciiDigit hc) fun bound rest hrest =>
      readValue_numberText h hrest bound
  | text s =>
    cases h
    exact spells_of_cons rfl fun bound rest _ => readValue_stringText s bound rest

theorem exists_scalarText {s : Scalar}
    (h : ∀ n, s = .number n → n.isFinite = true ∧ n.isWritable = true) :
    ∃ text, scalarText s = .ok text := by
  cases s with
  | bool b => exact ⟨_, rfl⟩
  | number n =>
    obtain ⟨hfinite, hwritable⟩ := h n rfl
    exact ⟨_, numberText_eq_ok_iff.2 ⟨hfinite, hwritable, rfl⟩⟩
  | text s => exact ⟨_, rfl⟩

/-- A scalar that has a text is conveyed as it is. -/
theorem conveys_scalar {s : Scalar}
    (h : ∀ n, s = .number n → n.isFinite = true ∧ n.isWritable = true) :
    Conveys (.scalar s) (.scalar s) := by
  obtain ⟨text, htext⟩ := exists_scalarText h
  refine ⟨text, ?_, spells_scalarText htext⟩
  rw [valueText]
  exact htext

/-! ## Members -/

/-- A member of an object. -/
def memberText (name : String) (text : List Char) : List Char := stringText name ++ ':' :: text

variable {α : Type}

/-- The members of an object, a comma between any two. -/
def membersText (text : α → List Char) (t : Table α) : List Char :=
  [','].intercalate (t.map fun entry => memberText entry.1 (text entry.2))

theorem membersText_cons_cons (text : α → List Char) (first second : String × α) (t : Table α) :
    membersText text (first :: second :: t) =
      memberText first.1 (text first.2) ++ ',' :: membersText text (second :: t) := by
  simp [membersText, List.intercalate]

theorem membersText_singleton (text : α → List Char) (entry : String × α) :
    membersText text [entry] = memberText entry.1 (text entry.2) := by
  simp [membersText, List.intercalate]

theorem memberText_append (name : String) (text rest : List Char) :
    memberText name text ++ rest =
      '"' :: (name.toList.flatMap charText ++ '"' :: ':' :: (text ++ rest)) := by
  simp [memberText, stringText]

theorem delimited_cons {c : Char} (hc : c = ',' ∨ c = ']' ∨ c = '\x7d') (rest : List Char) :
    Delimited (c :: rest) := by
  intro d hd
  rwa [← Option.some.inj hd]

/-- The last member is read up to the closing brace. -/
theorem readMembers_last {text : List Char} {v : Value} (h : Spells text v) (name : String)
    {bound : Nat} (hbound : text.length ≤ bound) (rest : List Char) :
    readMembers (bound + 1) (memberText name text ++ '\x7d' :: rest) =
      .ok ([(.text name, v)], rest) := by
  have hread := h.read bound ('\x7d' :: rest) hbound (delimited_cons (.inr (.inr rfl)) rest)
  rw [memberText_append, readMembers, readString_flatMap_charText]
  dsimp only [bind, Except.bind]
  rw [skipSpace_cons rfl]
  show (readValue bound (skipSpace (text ++ '\x7d' :: rest))).bind _ = _
  rw [h.skipSpace_append, hread]
  dsimp only [Except.bind]
  rw [skipSpace_cons rfl, String.ofList_toList]
  rfl

/-- A member that is not the last is read up to the comma. -/
theorem readMembers_next {text : List Char} {v : Value} (h : Spells text v) (name : String)
    {bound : Nat} (hbound : text.length ≤ bound) (rest : List Char) :
    readMembers (bound + 1) (memberText name text ++ ',' :: rest) =
      (readMembers bound (skipSpace rest)).map fun read => ((.text name, v) :: read.1, read.2) := by
  have hread := h.read bound (',' :: rest) hbound (delimited_cons (.inl rfl) rest)
  rw [memberText_append, readMembers, readString_flatMap_charText]
  dsimp only [bind, Except.bind]
  rw [skipSpace_cons rfl]
  show (readValue bound (skipSpace (text ++ ',' :: rest))).bind _ = _
  rw [h.skipSpace_append, hread]
  dsimp only [Except.bind]
  rw [skipSpace_cons rfl, String.ofList_toList]
  show (readMembers bound (skipSpace rest)).bind _ = _
  cases readMembers bound (skipSpace rest) <;> rfl

theorem head_membersText (text : α → List Char) (entry : String × α) (t : Table α)
    (rest : List Char) : ∃ cs, membersText text (entry :: t) ++ rest = '"' :: cs := by
  cases t with
  | nil =>
    rw [membersText_singleton, memberText_append]
    exact ⟨_, rfl⟩
  | cons second t =>
    rw [membersText_cons_cons, List.append_assoc, memberText_append]
    exact ⟨_, rfl⟩

theorem length_memberText (name : String) (text : List Char) :
    text.length < (memberText name text).length := by
  unfold memberText stringText
  simp
  omega

/-- The members of an object are read in the order in which they stand. -/
theorem readMembers_membersText {t : Table α} {text : α → List Char} {read : α → Value}
    (h : ∀ entry ∈ t, Spells (text entry.2) (read entry.2)) (hne : t ≠ []) {bound : Nat}
    (hbound : (membersText text t).length ≤ bound) (rest : List Char) :
    readMembers bound (membersText text t ++ '\x7d' :: rest) =
      .ok (Fields.ofTable (t.mapValues read), rest) := by
  -- Each member takes one call from the bound and at least one character from the text, so
  -- that the bound stays large enough for what is left.
  induction t generalizing bound with
  | nil => exact absurd rfl hne
  | cons entry t ih =>
    have hentry := h entry List.mem_cons_self
    have hmember := length_memberText entry.1 (text entry.2)
    cases t with
    | nil =>
      rw [membersText_singleton] at hbound ⊢
      obtain ⟨bound, rfl⟩ := Nat.exists_eq_succ_of_ne_zero (show bound ≠ 0 by omega)
      rw [readMembers_last hentry entry.1 (by omega) rest]
      rfl
    | cons second t =>
      rw [membersText_cons_cons, List.length_append, List.length_cons] at hbound
      obtain ⟨bound, rfl⟩ := Nat.exists_eq_succ_of_ne_zero (show bound ≠ 0 by omega)
      have hlength : (membersText text (second :: t)).length ≤ bound := by omega
      have hrest := ih (fun other hother => h other (List.mem_cons_of_mem entry hother)) (by simp)
        hlength
      obtain ⟨cs, hcs⟩ := head_membersText text second t ('\x7d' :: rest)
      rw [membersText_cons_cons, List.append_assoc, List.cons_append,
        readMembers_next hentry entry.1 (by omega), hcs, skipSpace_cons rfl, ← hcs, hrest]
      rfl

/-! ## Keys -/

/-- Texts that are no key yet are put at the end. -/
theorem insert_text_of_not_mem {t : Table Value} {name : String} (h : name ∉ t.names) (v : Value) :
    Fields.insert (Fields.ofTable t) (.text name) v = Fields.ofTable (t ++ [(name, v)]) := by
  induction t with
  | nil => rfl
  | cons entry t ih =>
    have hne : name ≠ entry.1 := fun heq => h (heq ▸ List.mem_cons_self)
    have hrest : name ∉ Table.names t := fun hmem => h (List.mem_cons_of_mem _ hmem)
    have hother : ¬(Value.text entry.1).same (.text name) = true := by
      rw [Value.same_text, beq_iff_eq]
      exact Ne.symm hne
    show (if (Value.text entry.1).same (.text name) then _ else _ :: _) = _
    rw [if_neg hother]
    exact congrArg _ (ih hrest)

theorem foldl_insert_ofTable {t u : Table Value} (h : (t ++ u).names.Nodup) :
    (Fields.ofTable u).foldl (fun fields entry => Fields.insert fields entry.1 entry.2)
      (Fields.ofTable t) = Fields.ofTable (t ++ u) := by
  -- What has been put together so far is `t`, which grows by an entry that is new to it.
  induction u generalizing t with
  | nil =>
    rw [List.append_nil]
    rfl
  | cons entry u ih =>
    have hnot : entry.1 ∉ t.names := by
      unfold Table.names at h ⊢
      rw [List.map_append, List.nodup_append] at h
      exact fun hmem => h.2.2 _ hmem _ List.mem_cons_self rfl
    have happend : t ++ entry :: u = (t ++ [entry]) ++ u := (List.append_cons t entry u)
    rw [happend] at h ⊢
    rw [← ih h]
    show List.foldl _ (Fields.insert (Fields.ofTable t) (.text entry.1) entry.2) _ = _
    rw [insert_text_of_not_mem hnot]
    rfl

/-- Fields with different texts as keys are put together as they stand. -/
theorem ofEntries_ofTable {t : Table Value} (h : t.names.Nodup) :
    Fields.ofEntries (Fields.ofTable t) = Fields.ofTable t :=
  foldl_insert_ofTable (t := []) h

/-! ## Objects -/

/-- The text of an object is read as the mapping of its members. -/
theorem spells_object {t : Table α} {text : α → List Char} {read : α → Value}
    (h : ∀ entry ∈ t, Spells (text entry.2) (read entry.2)) (hnodup : t.names.Nodup) :
    Spells ('\x7b' :: (membersText text t ++ ['\x7d']))
      (.mapping (Fields.ofTable (t.mapValues read))) := by
  refine ⟨by simp, fun c hc => Option.some.inj hc ▸ rfl, ?_⟩
  intro bound rest hbound _
  rw [List.length_cons, List.length_append, List.length_singleton] at hbound
  obtain ⟨bound, rfl⟩ := Nat.exists_eq_succ_of_ne_zero (show bound ≠ 0 by omega)
  have hentries : Fields.ofEntries (Fields.ofTable (t.mapValues read)) =
      Fields.ofTable (t.mapValues read) := by
    apply ofEntries_ofTable
    rwa [Table.names_mapValues]
  rw [List.cons_append, List.append_assoc, List.singleton_append]
  cases t with
  | nil =>
    have hempty : membersText text ([] : Table α) = [] := rfl
    rw [hempty, List.nil_append, readValue, skipSpace_cons rfl]
    rfl
  | cons entry t =>
    have hlength : (membersText text (entry :: t)).length ≤ bound := by omega
    have hmembers := readMembers_membersText h (by simp) hlength rest
    obtain ⟨cs, hcs⟩ := head_membersText text entry t ('\x7d' :: rest)
    rw [readValue, hcs, skipSpace_cons rfl]
    show (readMembers bound ('"' :: cs)).map _ = _
    rw [← hcs, hmembers]
    show Except.ok (Value.mapping (Fields.ofEntries _), rest) = _
    rw [hentries]

theorem mapM_eq_ok {β ε : Type} {f : α → Except ε β} {g : α → β} {as : List α}
    (h : ∀ a ∈ as, f a = .ok (g a)) : as.mapM f = .ok (as.map g) := by
  induction as with
  | nil => rfl
  | cons a as ih =>
    rw [List.mapM_cons, h a List.mem_cons_self, ih fun b hb => h b (List.mem_cons_of_mem a hb)]
    rfl

theorem sortable_text (names : List String) : sortable (names.map Value.text) = true := by
  cases names with
  | nil => rfl
  | cons first names =>
    cases names with
    | nil => rfl
    | cons second names =>
      show List.all _ _ = true
      rw [List.all_eq_true]
      intro key hkey
      obtain ⟨name, -, rfl⟩ := List.mem_map.1 hkey
      rfl

/-- The text of one member whose value may have none. -/
def member? (entry : String × Value) : Except WriteFault (List Char) := do
  return memberText entry.1 (← valueText entry.2)

theorem memberTexts_ofTable (t : Table Value) :
    memberTexts (Fields.ofTable t) = t.map fun entry => (.text entry.1, valueText entry.2) := by
  induction t with
  | nil => rfl
  | cons entry t ih =>
    show memberTexts ((.text entry.1, entry.2) :: Fields.ofTable t) = _
    rw [memberTexts, ih]
    rfl

/-- The writer puts members in the order of their keys. -/
theorem mergeSort_memberTexts (t : Table Value) :
    (memberTexts (Fields.ofTable t)).mergeSort (fun a b => b.1.less? a.1 != some true) =
      t.sorted.map fun entry => (.text entry.1, valueText entry.2) := by
  rw [memberTexts_ofTable]
  refine (List.map_mergeSort ?_).symm
  intro a _ b _
  show decide (a.1 ≤ b.1) = (some (decide (b.1 < a.1)) != some true)
  by_cases hlt : b.1 < a.1
  · rw [decide_eq_true hlt, decide_eq_false fun hle => String.not_lt.2 hle hlt]
    rfl
  · rw [decide_eq_false hlt, decide_eq_true (String.not_lt.1 hlt)]
    rfl

/-- The text of a mapping with text keys is that of its members in the order of the keys. -/
theorem valueText_mapping (t : Table Value) :
    valueText (.mapping (Fields.ofTable t)) =
      (t.sorted.mapM member?).map (enclosed '\x7b' '\x7d') := by
  have hkeys : (memberTexts (Fields.ofTable t)).map Prod.fst = t.names.map Value.text := by
    rw [memberTexts_ofTable]
    simp [Table.names]
  rw [valueText]
  unfold objectText
  rw [hkeys, if_pos (sortable_text t.names)]
  dsimp only
  rw [mergeSort_memberTexts, List.mapM_map]
  have hmember : ((fun member : Value × Except WriteFault (List Char) => (do
        let key ← keyText member.1
        return key ++ ':' :: (← member.2))) ∘
      fun entry : String × Value => (Value.text entry.1, valueText entry.2)) = member? := by
    funext entry
    unfold member?
    show (do
      let key ← keyText (.text entry.1)
      return key ++ ':' :: (← valueText entry.2)) = _
    cases valueText entry.2 <;> rfl
  rw [hmember]
  cases t.sorted.mapM member? <;> rfl

/-- The order of the entries of a mapping does not show in its text. -/
theorem valueText_mapping_perm {t u : Table Value} (hperm : t.Perm u) (h : t.names.Nodup) :
    valueText (.mapping (Fields.ofTable t)) = valueText (.mapping (Fields.ofTable u)) := by
  rw [valueText_mapping, valueText_mapping, Table.sorted_eq_of_perm hperm h]

/-- The text of a mapping whose values have texts. -/
theorem valueText_mapping_eq_ok {t : Table α} {written : α → Value} {text : α → List Char}
    (h : ∀ entry ∈ t, valueText (written entry.2) = .ok (text entry.2)) :
    valueText (.mapping (Fields.ofTable (t.mapValues written))) =
      .ok ('\x7b' :: (membersText text t.sorted ++ ['\x7d'])) := by
  rw [valueText_mapping, Table.sorted_mapValues]
  unfold Table.mapValues
  rw [List.mapM_map, mapM_eq_ok (g := fun entry => memberText entry.1 (text entry.2))]
  · rfl
  · intro entry hentry
    show member? (entry.1, written entry.2) = _
    unfold member?
    rw [h entry (Table.mem_sorted.1 hentry)]
    rfl

/-- A mapping is conveyed in the order of its keys, if its values are conveyed. -/
theorem conveys_mapping {t : Table α} {written read : α → Value}
    (h : ∀ entry ∈ t, Conveys (written entry.2) (read entry.2)) (hnodup : t.names.Nodup) :
    Conveys (.mapping (Fields.ofTable (t.mapValues written)))
      (.mapping (Fields.ofTable (t.sorted.mapValues read))) := by
  have htext : ∀ entry ∈ t,
      valueText (written entry.2) = .ok ((valueText (written entry.2)).toOption.getD []) ∧
        Spells ((valueText (written entry.2)).toOption.getD []) (read entry.2) := by
    intro entry hentry
    obtain ⟨text, htext, hspells⟩ := h entry hentry
    rw [htext]
    exact ⟨rfl, hspells⟩
  have hspells : Spells
      ('\x7b' :: (membersText (fun a => (valueText (written a)).toOption.getD []) t.sorted ++
        ['\x7d'])) (.mapping (Fields.ofTable (t.sorted.mapValues read))) :=
    spells_object (fun entry hentry => (htext entry (Table.mem_sorted.1 hentry)).2)
      (Table.nodup_sorted hnodup)
  exact ⟨_, valueText_mapping_eq_ok fun entry hentry => (htext entry hentry).1, hspells⟩

/-! ## Texts that are refused -/

/-- Whether a text is refused with a fault wherever it stands. -/
structure Refused (text : List Char) (fault : ReadFault) : Prop where
  ne_nil : text ≠ []
  head : ∀ c, text.head? = some c → isSpace c = false
  read : ∀ bound rest, text.length ≤ bound → Delimited rest →
    readValue bound (text ++ rest) = .error fault

/-- A value that is conveyed is written, and what is written is read. -/
theorem Conveys.exists_write {v w : Value} (h : Conveys v w) :
    ∃ text, write v = .ok text ∧ read text = .ok w := by
  obtain ⟨text, htext, hspells⟩ := h
  refine ⟨String.ofList text, ?_, ?_⟩
  · unfold write
    rw [htext]
    rfl
  · have hread := hspells.read (text.length + 1) [] (Nat.le_succ _) fun c hc => by cases hc
    have hskip := hspells.skipSpace_append []
    rw [List.append_nil] at hread hskip
    unfold read
    rw [String.toList_ofList]
    dsimp only
    rw [hskip, hread]
    rfl

end Tariff.Json
