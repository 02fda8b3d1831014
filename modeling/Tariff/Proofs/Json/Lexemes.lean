import Tariff.Proofs.Json.Objects
import Tariff.Proofs.Outcome
import Tariff.Text.Blank

/-!
# What a JSON text is made of

A JSON text taken apart without a parser: the texts between quotes, as they are read, and
the characters between them (`lexemes`). The keys of its objects are the quoted texts with
a colon right behind them (`objectKeys`), each counted to the object begun last. Both are
defined for every text, so that they say what a text looks like and not who wrote it.

`Tidy` is what every part of a text has that the writer makes: it is ASCII, it has no blank
character outside quotes, and it can be taken apart on its own. The keys of its objects are
kept along with it, so that the text of an object is tidy with one object more
(`Tidy.object`).
-/

namespace Tariff.Json

/-! ## Lexemes -/

/-- A character put before what is read leaves the rest of the text alone. -/
theorem exists_of_bind_cons {read : Except ReadFault (List Char × List Char)} {c : Char}
    {text rest : List Char} (h : (read.bind fun r => .ok (c :: r.1, r.2)) = .ok (text, rest)) :
    ∃ text', read = .ok (text', rest) := by
  obtain ⟨r, hr, heq⟩ := Outcome.bind_eq_ok_iff.1 h
  cases heq
  exact ⟨r.1, hr⟩

/-- What is quoted is read up to the closing quote, so that less is left. -/
theorem length_lt_of_readString {cs text rest : List Char} (h : readString cs = .ok (text, rest)) :
    rest.length < cs.length := by
  fun_induction readString cs generalizing text rest with
  | case1 => cases h
  | case2 =>
    cases h
    exact Nat.lt_succ_self _
  | case3 a b c d e f g k cs ihPair ihAlone =>
    obtain ⟨first, -, h⟩ := Outcome.bind_eq_ok_iff.1 h
    split at h
    · obtain ⟨text', hread⟩ := exists_of_bind_cons h
      have hlt := ihPair hread
      simp only [List.length_cons]
      omega
    · obtain ⟨char, -, h⟩ := Outcome.bind_eq_ok_iff.1 h
      obtain ⟨text', hread⟩ := exists_of_bind_cons h
      have hlt := ihAlone hread
      simp only [List.length_cons] at hlt ⊢
      omega
  | case4 a b c d cs hnext ih =>
    obtain ⟨code, -, h⟩ := Outcome.bind_eq_ok_iff.1 h
    obtain ⟨char, -, h⟩ := Outcome.bind_eq_ok_iff.1 h
    obtain ⟨text', hread⟩ := exists_of_bind_cons h
    have hlt := ih hread
    simp only [List.length_cons]
    omega
  | case5 letter cs hlong hshort ih =>
    obtain ⟨char, -, h⟩ := Outcome.bind_eq_ok_iff.1 h
    obtain ⟨text', hread⟩ := exists_of_bind_cons h
    have hlt := ih hread
    simp only [List.length_cons]
    omega
  | case6 => cases h
  | case7 =>
    rename_i ih
    obtain ⟨text', hread⟩ := exists_of_bind_cons h
    exact Nat.lt_succ_of_lt (ih hread)

/-- A part of a text. -/
inductive Lexeme where
  /-- A text between quotes. -/
  | quoted (text : String)
  /-- A character that is not between quotes. -/
  | mark (c : Char)
  deriving DecidableEq

/-- The parts of a text. A quote that is never closed is a mark. -/
def lexemes : List Char → List Lexeme
  | [] => []
  | '"' :: rest =>
    match h : readString rest with
    | .ok (text, after) =>
      have : after.length < rest.length := length_lt_of_readString h
      .quoted (String.ofList text) :: lexemes after
    | .error _ => .mark '"' :: lexemes rest
  | c :: rest => .mark c :: lexemes rest
termination_by cs => cs.length

/-- The keys of the objects of a text, an object that ends first before the others. The
objects that have begun are given by their keys so far, the innermost first. -/
def keysFrom : List (List String) → List Lexeme → List (List String)
  | begun, .mark '\x7b' :: rest => keysFrom ([] :: begun) rest
  | keys :: begun, .mark '\x7d' :: rest => keys :: keysFrom begun rest
  | keys :: begun, .quoted name :: .mark ':' :: rest => keysFrom ((keys ++ [name]) :: begun) rest
  | begun, _ :: rest => keysFrom begun rest
  | begun, [] => begun

/-- The keys of the objects of a text, each object after those in it. -/
def objectKeys (text : List Char) : List (List String) := keysFrom [] (lexemes text)

theorem lexemes_mark {c : Char} (hc : c ≠ '"') (cs : List Char) :
    lexemes (c :: cs) = .mark c :: lexemes cs := by
  rw [lexemes]
  exact hc

theorem lexemes_stringText (s : String) (rest : List Char) :
    lexemes (stringText s ++ rest) = .quoted s :: lexemes rest := by
  have hread : readString (s.toList.flatMap charText ++ '"' :: rest) = .ok (s.toList, rest) :=
    readString_flatMap_charText s.toList rest
  have happend : stringText s ++ rest = '"' :: (s.toList.flatMap charText ++ '"' :: rest) := by
    simp [stringText]
  rw [happend, lexemes]
  split
  · next text after heq =>
    rw [hread] at heq
    cases heq
    rw [String.ofList_toList]
  · next heq =>
    rw [hread] at heq
    cases heq

/-! ## ASCII -/

/-- Whether a text has only ASCII characters. -/
def IsAscii (text : List Char) : Prop := ∀ c ∈ text, c.toNat < 0x80

instance (text : List Char) : Decidable (IsAscii text) :=
  List.decidableBAll (fun c : Char => c.toNat < 0x80) text

theorem IsAscii.append {text text' : List Char} (h : IsAscii text) (h' : IsAscii text') :
    IsAscii (text ++ text') := by
  intro c hc
  rcases List.mem_append.1 hc with hc | hc
  · exact h c hc
  · exact h' c hc

theorem isAscii_cons {c : Char} {text : List Char} (hc : c.toNat < 0x80) (h : IsAscii text) :
    IsAscii (c :: text) := List.forall_mem_cons.2 ⟨hc, h⟩

theorem isAscii_of_hexDigitValue? {c : Char} {value : Nat} (h : hexDigitValue? c = some value) :
    c.toNat < 0x80 := by
  unfold hexDigitValue? at h
  split_ifs at h with hdigit hsmall hcapital
  · exact Nat.lt_of_le_of_lt hdigit.2 (by decide)
  · exact Nat.lt_of_le_of_lt hsmall.2 (by decide)
  · exact Nat.lt_of_le_of_lt hcapital.2 (by decide)

theorem isAscii_of_hexValue? {cs : List Char} {value : Nat} (h : hexValue? cs = some value) :
    IsAscii cs := by
  induction cs using List.reverseRecOn generalizing value with
  | nil => exact nofun
  | append_singleton cs c ih =>
    rw [hexValue?_append_singleton] at h
    obtain ⟨front, hfront, hlast⟩ := Option.bind_eq_some_iff.1 h
    obtain ⟨digit, hdigit, -⟩ := Option.map_eq_some_iff.1 hlast
    exact (ih hfront).append (isAscii_cons (isAscii_of_hexDigitValue? hdigit) nofun)

theorem isAscii_unitEscape {code : Nat} (h : code < 0x10000) : IsAscii (unitEscape code) := by
  obtain ⟨a, b, c, d, htext, hvalue⟩ := exists_unitEscape h
  rw [htext]
  exact isAscii_cons (by decide) (isAscii_cons (by decide) (isAscii_of_hexValue? hvalue))

/-- Every character is spelled in ASCII. -/
theorem isAscii_charText (c : Char) : IsAscii (charText c) := by
  have hvalid := toNat_valid c
  unfold charText
  split_ifs with hescaped hprintable hn hr ht hf hb hcode
  · rcases hescaped with rfl | rfl <;> decide
  · exact isAscii_cons (Nat.lt_of_le_of_lt hprintable.2 (by decide)) nofun
  · decide
  · decide
  · decide
  · decide
  · decide
  · exact isAscii_unitEscape hcode
  · exact (isAscii_unitEscape (by omega)).append (isAscii_unitEscape (by omega))

theorem isAscii_stringText (s : String) : IsAscii (stringText s) := by
  have htext : IsAscii (s.toList.flatMap charText) := by
    intro c hc
    obtain ⟨d, -, hd⟩ := List.mem_flatMap.1 hc
    exact isAscii_charText d c hd
  exact isAscii_cons (by decide) (htext.append (isAscii_cons (by decide) nofun))

/-! ## Tidy parts of a text -/

/-- Whether a part of a text is ASCII, without blank characters outside quotes, and taken
apart on its own. Its objects have the keys `groups`, and `own` are the keys that it adds to
the object around it. -/
structure Tidy (text : List Char) (groups : List (List String)) (own : List String) : Prop where
  ascii : IsAscii text
  lexed : ∀ rest, lexemes (text ++ rest) = lexemes text ++ lexemes rest
  spaceless : ∀ c, .mark c ∈ lexemes text → Text.isBlank c = false
  keys : ∀ keys begun rest, rest.head? ≠ some (.mark ':') →
    keysFrom (keys :: begun) (lexemes text ++ rest) =
      groups ++ keysFrom ((keys ++ own) :: begun) rest

/-- Whether a character can stand in a number or a word. -/
structure IsBare (c : Char) : Prop where
  ascii : c.toNat < 0x80
  spaceless : Text.isBlank c = false
  unquoted : c ≠ '"'
  opening : c ≠ '\x7b'
  closing : c ≠ '\x7d'

instance (c : Char) : Decidable (IsBare c) :=
  decidable_of_iff
    (c.toNat < 0x80 ∧ Text.isBlank c = false ∧ c ≠ '"' ∧ c ≠ '\x7b' ∧ c ≠ '\x7d')
    ⟨fun ⟨ascii, spaceless, unquoted, opening, closing⟩ =>
      ⟨ascii, spaceless, unquoted, opening, closing⟩,
    fun h => ⟨h.ascii, h.spaceless, h.unquoted, h.opening, h.closing⟩⟩

/-- Of given characters it can be decided one by one. -/
theorem isBare_of_all (text : List Char) (h : (text.all fun c => decide (IsBare c)) = true) :
    ∀ c ∈ text, IsBare c := fun c hc => of_decide_eq_true (List.all_eq_true.1 h c hc)

theorem lexemes_nil : lexemes [] = [] := by rw [lexemes]

theorem tidy_nil : Tidy [] [] [] where
  ascii := nofun
  lexed rest := by rw [lexemes_nil, List.nil_append, List.nil_append]
  spaceless c hc := by
    rw [lexemes_nil] at hc
    cases hc
  keys keys begun rest _ := by
    rw [lexemes_nil, List.append_nil, List.nil_append, List.nil_append]

theorem keysFrom_bare {c : Char} (hc : IsBare c) (begun : List (List String))
    (rest : List Lexeme) : keysFrom begun (.mark c :: rest) = keysFrom begun rest := by
  rw [keysFrom]
  · intro heq
    cases heq
    exact hc.opening rfl
  · intro keys begun' hbegun heq
    cases heq
    exact hc.closing rfl
  · nofun

/-- A character of a number or a word changes nothing for the keys. -/
theorem Tidy.cons {c : Char} {text : List Char} {groups : List (List String)} {own : List String}
    (hc : IsBare c) (h : Tidy text groups own) : Tidy (c :: text) groups own where
  ascii := isAscii_cons hc.ascii h.ascii
  lexed rest := by
    rw [List.cons_append, lexemes_mark hc.unquoted, lexemes_mark hc.unquoted, h.lexed,
      List.cons_append]
  spaceless d hd := by
    rw [lexemes_mark hc.unquoted] at hd
    rcases List.mem_cons.1 hd with heq | hd
    · cases heq
      exact hc.spaceless
    · exact h.spaceless d hd
  keys keys begun rest hrest := by
    rw [lexemes_mark hc.unquoted, List.cons_append, keysFrom_bare hc]
    exact h.keys keys begun rest hrest

theorem tidy_of_bare {text : List Char} (h : ∀ c ∈ text, IsBare c) : Tidy text [] [] := by
  induction text with
  | nil => exact tidy_nil
  | cons c text ih =>
    obtain ⟨hc, htext⟩ := List.forall_mem_cons.1 h
    exact (ih htext).cons hc

/-- A comma between two parts that are tidy. -/
theorem Tidy.comma {text text' : List Char} {groups groups' : List (List String)}
    {own own' : List String} (h : Tidy text groups own) (h' : Tidy text' groups' own') :
    Tidy (text ++ ',' :: text') (groups ++ groups') (own ++ own') := by
  have hcomma : Tidy (',' :: text') groups' own' := h'.cons (by decide)
  have hlexed : lexemes (text ++ ',' :: text') = lexemes text ++ lexemes (',' :: text') :=
    h.lexed _
  have hmark : lexemes (',' :: text') = .mark ',' :: lexemes text' := lexemes_mark (by decide) _
  constructor
  · exact h.ascii.append hcomma.ascii
  · intro rest
    rw [hlexed, List.append_assoc, h.lexed, hcomma.lexed, List.append_assoc]
  · intro c hc
    rw [hlexed] at hc
    rcases List.mem_append.1 hc with hc | hc
    · exact h.spaceless c hc
    · exact hcomma.spaceless c hc
  · intro keys begun rest hrest
    have hhead : (lexemes (',' :: text') ++ rest).head? ≠ some (.mark ':') := by
      rw [hmark]
      show some (Lexeme.mark ',') ≠ some (.mark ':')
      decide
    rw [hlexed, List.append_assoc, h.keys keys begun _ hhead,
      hcomma.keys (keys ++ own) begun rest hrest, List.append_assoc, List.append_assoc]

theorem tidy_stringText (s : String) : Tidy (stringText s) [] [] := by
  have hlexed : lexemes (stringText s) = [.quoted s] := by
    have hnil := lexemes_stringText s []
    rwa [List.append_nil, lexemes_nil] at hnil
  refine ⟨isAscii_stringText s, ?_, ?_, ?_⟩
  · intro rest
    rw [hlexed, lexemes_stringText]
    rfl
  · intro c hc
    rw [hlexed] at hc
    cases List.mem_singleton.1 hc
  · intro keys begun rest hrest
    rw [hlexed, List.singleton_append, List.nil_append, List.append_nil, keysFrom]
    · nofun
    · nofun
    · intro keys' begun' name tail _ _ hcolon
      exact hrest (hcolon ▸ rfl)

/-- A member has its name among the keys of the object around it. -/
theorem Tidy.member {text : List Char} {groups : List (List String)} (name : String)
    (h : Tidy text groups []) : Tidy (memberText name text) groups [name] := by
  have hcolon : Tidy (':' :: text) groups [] := h.cons (by decide)
  have hlexed : lexemes (memberText name text) = .quoted name :: .mark ':' :: lexemes text := by
    unfold memberText
    rw [lexemes_stringText, lexemes_mark (by decide)]
  refine ⟨(isAscii_stringText name).append hcolon.ascii, ?_, ?_, ?_⟩
  · intro rest
    rw [hlexed]
    unfold memberText
    rw [List.append_assoc, lexemes_stringText, List.cons_append, lexemes_mark (by decide), h.lexed]
    rfl
  · intro c hc
    rw [hlexed] at hc
    rcases List.mem_cons.1 hc with heq | hc
    · cases heq
    · rw [← lexemes_mark (by decide)] at hc
      exact hcolon.spaceless c hc
  · intro keys begun rest hrest
    rw [hlexed, List.cons_append, List.cons_append, keysFrom,
      h.keys (keys ++ [name]) begun rest hrest, List.append_nil]

/-- An object ends the keys that stand in it. -/
theorem Tidy.object {text : List Char} {groups : List (List String)} {own : List String}
    (h : Tidy text groups own) : Tidy ('\x7b' :: (text ++ ['\x7d'])) (groups ++ [own]) [] := by
  have hlexed : lexemes ('\x7b' :: (text ++ ['\x7d'])) =
      .mark '\x7b' :: (lexemes text ++ [.mark '\x7d']) := by
    rw [lexemes_mark (by decide), h.lexed, lexemes_mark (by decide), lexemes_nil]
  refine ⟨?_, ?_, ?_, ?_⟩
  · exact isAscii_cons (by decide) (h.ascii.append (by decide))
  · intro rest
    rw [hlexed, List.cons_append, List.append_assoc, lexemes_mark (by decide), h.lexed,
      List.singleton_append, lexemes_mark (by decide)]
    simp
  · intro c hc
    rw [hlexed] at hc
    rcases List.mem_cons.1 hc with heq | hc
    · cases heq
      decide
    · rcases List.mem_append.1 hc with hc | hc
      · exact h.spaceless c hc
      · cases List.mem_singleton.1 hc
        decide
  · intro keys begun rest _
    have hhead : ([Lexeme.mark '\x7d'] ++ rest).head? ≠ some (.mark ':') := by
      show some (Lexeme.mark '\x7d') ≠ some (.mark ':')
      decide
    rw [hlexed, List.cons_append, List.append_assoc, keysFrom, h.keys [] (keys :: begun) _ hhead,
      List.singleton_append, List.nil_append, keysFrom, List.append_assoc, List.append_nil]
    rfl

/-- The keys of a text that is one object. -/
theorem Tidy.objectKeys_object {text : List Char} {groups : List (List String)}
    {own : List String} (h : Tidy text groups own) :
    objectKeys ('\x7b' :: (text ++ ['\x7d'])) = groups ++ [own] := by
  unfold objectKeys
  rw [lexemes_mark (by decide), h.lexed, lexemes_mark (by decide), lexemes_nil, keysFrom,
    h.keys [] [] _ (by decide), List.nil_append, keysFrom, keysFrom]

/-! ## What the writer makes -/

theorem isBare_of_isAsciiDigit {c : Char} (h : Text.isAsciiDigit c = true) : IsBare c := by
  have hrange : '0' ≤ c ∧ c ≤ '9' := of_decide_eq_true h
  have hlow : 0x30 ≤ c.toNat := hrange.1
  have hhigh : c.toNat < 0x3a := Nat.lt_succ_of_le hrange.2
  have hblank : ∀ n < 0x3a, 0x30 ≤ n → Text.blankCodes.contains n = false := by decide
  refine ⟨by omega, hblank c.toNat hhigh hlow, ?_, ?_, ?_⟩
  · rintro rfl
    cases h
  · rintro rfl
    cases h
  · rintro rfl
    cases h

theorem isBare_of_digits {digits : List Char} (h : Text.AreDigits digits) :
    ∀ c ∈ digits, IsBare c := fun c hc => isBare_of_isAsciiDigit (h.all c hc)

/-- A numeral is made of digits, a point, a letter for the exponent and signs. -/
theorem isBare_of_mem_signedChars {n : Numeral} (h : n.IsJson) (negative : Bool) :
    ∀ c ∈ n.signedChars negative, IsBare c := by
  obtain ⟨whole, fraction, exponent⟩ := n
  have hfraction : ∀ c ∈ fractionChars fraction, IsBare c := by
    cases fraction with
    | none => exact nofun
    | some digits =>
      exact List.forall_mem_cons.2
        ⟨by decide, isBare_of_digits (h.fraction digits rfl)⟩
  have hexponent : ∀ c ∈ exponentChars exponent, IsBare c := by
    cases exponent with
    | none => exact nofun
    | some e =>
      have he := h.exponent e rfl
      have hmarker : IsBare e.marker := by
        rcases he.marker with heq | heq <;> rw [heq] <;> decide
      have hsign : ∀ c ∈ e.sign.toList, IsBare c := by
        rcases he.sign with heq | heq | heq <;> rw [heq] <;> exact isBare_of_all _ (by decide)
      exact List.forall_mem_cons.2
        ⟨hmarker, List.forall_mem_append.2 ⟨hsign, isBare_of_digits he.digits⟩⟩
  have hchars : ∀ c ∈ whole ++ fractionChars fraction ++ exponentChars exponent, IsBare c :=
    List.forall_mem_append.2
      ⟨List.forall_mem_append.2 ⟨isBare_of_digits h.whole, hfraction⟩, hexponent⟩
  cases negative with
  | true => exact List.forall_mem_cons.2 ⟨by decide, hchars⟩
  | false => exact hchars

/-- The text of a scalar is tidy, and there is no object in it. -/
theorem tidy_scalarText {s : Scalar} {text : List Char} (h : scalarText s = .ok text) :
    Tidy text [] [] := by
  cases s with
  | bool b =>
    cases h
    apply tidy_of_bare
    cases b with
    | true => exact isBare_of_all ['t', 'r', 'u', 'e'] (by decide)
    | false => exact isBare_of_all ['f', 'a', 'l', 's', 'e'] (by decide)
  | number n =>
    obtain ⟨negative, numeral, hjson, rfl, -⟩ := exists_signedChars_of_numberText h
    exact tidy_of_bare (isBare_of_mem_signedChars hjson negative)
  | text s =>
    cases h
    exact tidy_stringText s

variable {α : Type}

/-- The members of an object have its keys as their names. -/
theorem tidy_membersText {t : Table α} {text : α → List Char} (groups : α → List (List String))
    (h : ∀ entry ∈ t, Tidy (text entry.2) (groups entry.2) []) :
    Tidy (membersText text t) (t.flatMap fun entry => groups entry.2) t.names := by
  induction t with
  | nil => exact tidy_nil
  | cons first t ih =>
    obtain ⟨hfirst, hrest⟩ := List.forall_mem_cons.1 h
    cases t with
    | nil =>
      rw [membersText_singleton, List.flatMap_cons, List.flatMap_nil, List.append_nil]
      exact hfirst.member first.1
    | cons second t =>
      rw [membersText_cons_cons]
      exact (hfirst.member first.1).comma (ih hrest)

end Tariff.Json
