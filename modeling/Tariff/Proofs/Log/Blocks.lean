import Mathlib.Data.List.Induction
import Mathlib.Data.List.Infix
import Tariff.Log.Line
import Tariff.Proofs.Table

/-!
# Blocks of correlation

Leaving a block restores the correlation that was in force when the block was entered,
whatever has been done inside, and every record that is logged on the way has the correlation
in force at that time, and is unchanged otherwise (`exit_restores_entry`).

What can be done inside a block is said without looking at contexts: steps are complete if they
leave every block that they enter, and no other (`IsComplete`). The entry that an exit belongs
to is the one from which on the steps before the exit are complete. Complete steps change
nothing that is saved for the blocks around them (`outer_run_of_isComplete`), which is all that
an exit looks at. Every exit has such an entry if no block is left that has not been entered,
since steps are complete up to the blocks that they leave open (`exists_leavesOpen`).
-/

namespace Tariff

/-! ## Records -/

namespace Correlation

variable {c : Correlation} {record : Table Value}

/-- The fields that a correlation can change. -/
def fieldNames : List String := ["request_id", "saas_name"]

/-- Whether a record as it is logged has the correlation in force, and is the same record
otherwise. -/
structure Carries (c : Correlation) (record logged : Table Value) : Prop where
  identified : ∀ id, c.requestId = some id → id ≠ "" →
    logged.get? "request_id" = some (.text id)
  /-- Without an identifier in force, the record keeps what it has. -/
  unidentified : (∀ id, c.requestId = some id → id = "") →
    logged.get? "request_id" = record.get? "request_id"
  named : ∀ name, c.saasName = some name → name ≠ "" → record.has "saas_name" = false →
    logged.get? "saas_name" = some (.text name)
  /-- Without a name in force, or with one of its own, the record keeps what it has. -/
  unnamed : (∀ name, c.saasName = some name → name = "") ∨ record.has "saas_name" = true →
    logged.get? "saas_name" = record.get? "saas_name"
  /-- All other fields are there, in their order, and there are no more of them. -/
  others : (logged.filter fun entry => !fieldNames.contains entry.1) =
    record.filter fun entry => !fieldNames.contains entry.1

/-- A record with the identifier of the request. -/
def identify (c : Correlation) (record : Table Value) : Table Value :=
  match c.requestId.filter (· ≠ "") with
  | some id => record.set "request_id" (.text id)
  | none => record

/-- A record with the name of the service. -/
def nameService (c : Correlation) (record : Table Value) : Table Value :=
  match c.saasName.filter (· ≠ "") with
  | some name => record.setDefault "saas_name" (.text name)
  | none => record

theorem attach_eq (c : Correlation) (record : Table Value) :
    c.attach record = c.nameService (c.identify record) := rfl

/-- A text is in force if it is not empty. -/
theorem filter_ne_empty_cases (text : Option String) :
    (∃ s, text = some s ∧ s ≠ "" ∧ text.filter (· ≠ "") = some s) ∨
      (∀ s, text = some s → s = "") ∧ text.filter (· ≠ "") = none := by
  cases text with
  | none => exact .inr ⟨nofun, rfl⟩
  | some s =>
    by_cases h : s = ""
    · exact .inr ⟨fun s' hs' => Option.some.inj hs' ▸ h, by simp [h]⟩
    · exact .inl ⟨s, rfl, h, by simp [h]⟩

theorem identify_cases (c : Correlation) (record : Table Value) :
    (∃ id, c.requestId = some id ∧ id ≠ "" ∧
      c.identify record = record.set "request_id" (.text id)) ∨
    (∀ id, c.requestId = some id → id = "") ∧ c.identify record = record := by
  unfold identify
  rcases filter_ne_empty_cases c.requestId with ⟨id, hid, hne, hfilter⟩ | ⟨hempty, hfilter⟩
  · rw [hfilter]
    exact .inl ⟨id, hid, hne, rfl⟩
  · rw [hfilter]
    exact .inr ⟨hempty, rfl⟩

theorem nameService_cases (c : Correlation) (record : Table Value) :
    (∃ name, c.saasName = some name ∧ name ≠ "" ∧ record.has "saas_name" = false ∧
      c.nameService record = record.set "saas_name" (.text name)) ∨
    ((∀ name, c.saasName = some name → name = "") ∨ record.has "saas_name" = true) ∧
      c.nameService record = record := by
  unfold nameService
  rcases filter_ne_empty_cases c.saasName with ⟨name, hname, hne, hfilter⟩ | ⟨hempty, hfilter⟩
  · rw [hfilter]
    dsimp only [Table.setDefault]
    cases hhas : record.has "saas_name" with
    | true => exact .inr ⟨.inr rfl, rfl⟩
    | false => exact .inl ⟨name, hname, hne, rfl, rfl⟩
  · rw [hfilter]
    exact .inr ⟨.inl hempty, rfl⟩

/-- Identifying a record changes neither the name of the service nor another field. -/
theorem get?_identify_of_ne {name : String} (h : name ≠ "request_id") :
    (c.identify record).get? name = record.get? name := by
  rcases identify_cases c record with ⟨id, -, -, hset⟩ | ⟨-, hsame⟩
  · rw [hset, Table.get?_set_of_ne record _ h]
  · rw [hsame]

theorem get?_nameService_of_ne {name : String} (h : name ≠ "saas_name") :
    (c.nameService record).get? name = record.get? name := by
  rcases nameService_cases c record with ⟨s, -, -, -, hset⟩ | ⟨-, hsame⟩
  · rw [hset, Table.get?_set_of_ne record _ h]
  · rw [hsame]

/-- The correlation in force is attached to a record, which keeps all its other fields. -/
theorem carries_attach (c : Correlation) (record : Table Value) :
    c.Carries record (c.attach record) := by
  have hid : (c.attach record).get? "request_id" = (c.identify record).get? "request_id" :=
    get?_nameService_of_ne (by decide)
  have hname : (c.identify record).get? "saas_name" = record.get? "saas_name" :=
    get?_identify_of_ne (by decide)
  have hhas : (c.identify record).has "saas_name" = record.has "saas_name" := by
    rw [Table.has, hname, Table.has]
  have hattach := nameService_cases c (c.identify record)
  rw [hhas, ← attach_eq] at hattach
  refine ⟨?_, ?_, ?_, ?_, ?_⟩
  · intro id hsome hne
    rcases identify_cases c record with ⟨id', hid', -, hset⟩ | ⟨hempty, -⟩
    · obtain rfl := Option.some.inj (hsome.symm.trans hid')
      rw [hid, hset, Table.get?_set_self]
    · exact absurd (hempty id hsome) hne
  · intro hempty
    rcases identify_cases c record with ⟨id', hid', hne, -⟩ | ⟨-, hsame⟩
    · exact absurd (hempty id' hid') hne
    · rw [hid, hsame]
  · intro name hsome hne hnot
    rcases hattach with ⟨name', hname', -, -, hset⟩ | ⟨hempty | htaken, -⟩
    · obtain rfl := Option.some.inj (hsome.symm.trans hname')
      rw [hset, Table.get?_set_self]
    · exact absurd (hempty name hsome) hne
    · rw [hnot] at htaken
      cases htaken
  · intro hkept
    rcases hattach with ⟨name', hname', hne, hnot, -⟩ | ⟨-, hsame⟩
    · rcases hkept with hempty | htaken
      · exact absurd (hempty name' hname') hne
      · rw [hnot] at htaken
        cases htaken
    · rw [hsame, hname]
  · have hfirst : (c.identify record).filter (fun entry => !fieldNames.contains entry.1) =
        record.filter fun entry => !fieldNames.contains entry.1 := by
      rcases identify_cases c record with ⟨id, -, -, hset⟩ | ⟨-, hsame⟩
      · rw [hset, Table.filter_set record _ fun _ => rfl]
      · rw [hsame]
    rw [← hfirst]
    rcases hattach with ⟨name, -, -, -, hset⟩ | ⟨-, hsame⟩
    · rw [hset, Table.filter_set _ _ fun _ => rfl]
    · rw [hsame]

end Correlation

/-- A record with the service that it comes from, before the correlation is attached. -/
def Log.serviced (service : String) (record : Table Value) : Table Value :=
  (withComponent record).setDefault "service" (.text service)

theorem Log.carries_complete (service : String) (c : Correlation) (record : Table Value) :
    c.Carries (serviced service record) (complete service c record) :=
  Correlation.carries_attach c (serviced service record)

/-! ## Steps -/

namespace Context

/-- An action, and the identifier that is fresh when it is done. -/
structure Step where
  fresh : String
  action : Action

namespace Step

/-- Whether a step enters a block. -/
def enters (s : Step) : Bool :=
  match s.action with
  | .enter _ _ => true
  | _ => false

/-- Whether a step leaves a block. -/
def exits (s : Step) : Bool :=
  match s.action with
  | .exit => true
  | _ => false

/-- No step does both. -/
theorem exits_of_enters {s : Step} (h : s.enters = true) : s.exits = false := by
  unfold enters at h
  unfold exits
  split at h
  · next haction => rw [haction]
  · cases h

end Step

/-- The context after steps. -/
def run (c : Context) (steps : List Step) : Context :=
  steps.foldl (fun c s => c.act s.fresh s.action) c

variable {c : Context} {s entry leaving : Step} {steps inner rest : List Step}

@[simp] theorem run_nil (c : Context) : c.run [] = c := rfl

@[simp] theorem run_cons (c : Context) (s : Step) (rest : List Step) :
    c.run (s :: rest) = (c.act s.fresh s.action).run rest := rfl

theorem run_append (c : Context) (steps rest : List Step) :
    c.run (steps ++ rest) = (c.run steps).run rest := List.foldl_append

theorem act_of_enters (h : s.enters = true) (c : Context) :
    ∃ correlation, c.act s.fresh s.action = ⟨correlation, c.current :: c.outer⟩ := by
  unfold Step.enters at h
  split at h
  · next saasName id haction =>
    rw [haction]
    exact ⟨_, rfl⟩
  · cases h

theorem act_of_exits (h : s.exits = true) (c : Context) : c.act s.fresh s.action = c.exit := by
  unfold Step.exits at h
  split at h
  · next haction => rw [haction, act]
  · cases h

/-- What neither enters nor leaves a block changes nothing that is saved. -/
theorem outer_act (henters : s.enters = false) (hexits : s.exits = false) (c : Context) :
    (c.act s.fresh s.action).outer = c.outer := by
  unfold Step.enters at henters
  unfold Step.exits at hexits
  cases haction : s.action with
  | setRequestId id => rfl
  | clear => rfl
  | enter saasName id =>
    rw [haction] at henters
    cases henters
  | exit =>
    rw [haction] at hexits
    cases hexits

/-! ## Complete steps -/

/-- Whether steps leave every block that they enter, and no other. -/
inductive IsComplete : List Step → Prop where
  | nil : IsComplete []
  | plain {s : Step} {rest : List Step} (henters : s.enters = false) (hexits : s.exits = false)
      (hrest : IsComplete rest) : IsComplete (s :: rest)
  | block {entry leaving : Step} {inner rest : List Step} (hentry : entry.enters = true)
      (hinner : IsComplete inner) (hexit : leaving.exits = true) (hrest : IsComplete rest) :
      IsComplete (entry :: (inner ++ leaving :: rest))

/-- Complete steps change nothing that is saved for the blocks around them. -/
theorem outer_run_of_isComplete (h : IsComplete steps) (c : Context) :
    (c.run steps).outer = c.outer := by
  induction h generalizing c with
  | nil => rfl
  | plain henters hexits _ ih => rw [run_cons, ih, outer_act henters hexits]
  | @block entry leaving inner rest hentry _ hexit _ ihInner ihRest =>
    obtain ⟨correlation, hact⟩ := act_of_enters hentry c
    have hinside := ihInner ⟨correlation, c.current :: c.outer⟩
    rw [run_cons, run_append, run_cons, ihRest, act_of_exits hexit, hact, Context.exit, hinside]

/-- A block restores the context in which it was entered. -/
theorem run_block (hentry : entry.enters = true) (hinner : IsComplete inner)
    (hexit : leaving.exits = true) (c : Context) : c.run (entry :: (inner ++ [leaving])) = c := by
  obtain ⟨correlation, hact⟩ := act_of_enters hentry c
  have hinside := outer_run_of_isComplete hinner ⟨correlation, c.current :: c.outer⟩
  rw [run_cons, run_append, run_cons, run_nil, act_of_exits hexit, hact, Context.exit, hinside]

theorem IsComplete.append (h : IsComplete steps) (hrest : IsComplete rest) :
    IsComplete (steps ++ rest) := by
  induction h with
  | nil => exact hrest
  | plain henters hexits _ ih => exact .plain henters hexits ih
  | block hentry hinner hexit _ _ ih =>
    rw [List.cons_append, List.append_assoc, List.cons_append]
    exact .block hentry hinner hexit ih

/-! ## Blocks that are open -/

/-- Whether steps leave so many blocks open: up to the entries of these blocks, and after each
of them, they are complete. -/
inductive LeavesOpen : Nat → List Step → Prop where
  | none {steps : List Step} (h : IsComplete steps) : LeavesOpen 0 steps
  | block {n : Nat} {outer inner : List Step} {entry : Step} (houter : LeavesOpen n outer)
      (hentry : entry.enters = true) (hinner : IsComplete inner) :
      LeavesOpen (n + 1) (outer ++ entry :: inner)

theorem LeavesOpen.append {n : Nat} (h : LeavesOpen n steps) (hrest : IsComplete rest) :
    LeavesOpen n (steps ++ rest) := by
  cases h with
  | none h => exact .none (h.append hrest)
  | block houter hentry hinner =>
    rw [List.append_assoc, List.cons_append]
    exact .block houter hentry (hinner.append hrest)

/-- An exit closes the innermost block. -/
theorem LeavesOpen.close {n : Nat} (h : LeavesOpen (n + 1) steps) (hexit : leaving.exits = true) :
    LeavesOpen n (steps ++ [leaving]) := by
  cases h with
  | block houter hentry hinner =>
    rw [List.append_assoc, List.cons_append]
    exact houter.append (.block hentry hinner hexit .nil)

/-- Whether no block is left that has not been entered. -/
def LeavesEntered (steps : List Step) : Prop :=
  ∀ before, before <+: steps → before.countP Step.exits ≤ before.countP Step.enters

instance (steps : List Step) : Decidable (LeavesEntered steps) :=
  decidable_of_iff (∀ before ∈ steps.inits, before.countP Step.exits ≤ before.countP Step.enters) <| by
    simp only [List.mem_inits, LeavesEntered]

theorem LeavesEntered.of_begins (h : LeavesEntered steps) (hbegins : rest <+: steps) :
    LeavesEntered rest :=
  fun before hbefore => h before (hbefore.trans hbegins)

/-- Steps leave as many blocks open as they have entered and not left. -/
theorem exists_leavesOpen (h : LeavesEntered steps) :
    ∃ n, LeavesOpen n steps ∧ steps.countP Step.exits + n = steps.countP Step.enters := by
  induction steps using List.reverseRecOn with
  | nil => exact ⟨0, .none .nil, rfl⟩
  | append_singleton steps s ih =>
    obtain ⟨n, hopen, hcount⟩ := ih (h.of_begins (List.prefix_append _ _))
    have hlast := h _ (List.prefix_refl _)
    simp only [List.countP_append, List.countP_singleton] at hlast ⊢
    cases henters : s.enters with
    | true =>
      rw [Step.exits_of_enters henters]
      refine ⟨n + 1, .block hopen henters .nil, ?_⟩
      simp
      omega
    | false =>
      cases hexits : s.exits with
      | false =>
        exact ⟨n, hopen.append (.plain henters hexits .nil), by simpa using hcount⟩
      | true =>
        simp only [henters, hexits, if_true, Bool.false_eq_true, if_false] at hlast
        obtain ⟨m, rfl⟩ : ∃ m, n = m + 1 := ⟨n - 1, by omega⟩
        refine ⟨m, hopen.close hexits, ?_⟩
        simp
        omega

/-! ## Exits and their entries -/

/-- Whether an entry is the one that an exit right after some steps belongs to: from there on,
the steps are complete. -/
structure Matches (before earlier : List Step) (entry : Step) (inner : List Step) : Prop where
  split : before = earlier ++ entry :: inner
  enters : entry.enters = true
  complete : IsComplete inner

/-- Every exit has an entry that it belongs to. -/
theorem exists_matches {before after : List Step} (h : LeavesEntered (before ++ leaving :: after))
    (hexit : leaving.exits = true) :
    ∃ earlier entry inner, Matches before earlier entry inner := by
  have hbegins : before ++ [leaving] <+: before ++ leaving :: after :=
    (List.prefix_append_right_inj before).2 ⟨after, rfl⟩
  obtain ⟨n, hopen, hcount⟩ := exists_leavesOpen (h.of_begins (List.prefix_append _ _))
  have hlast := h _ hbegins
  cases hopen with
  | block houter hentry hinner => exact ⟨_, _, _, rfl, hentry, hinner⟩
  | none hcomplete =>
    have henters : leaving.enters = false := by
      by_contra henters
      rw [Step.exits_of_enters (by simpa using henters)] at hexit
      cases hexit
    simp only [List.countP_append, List.countP_singleton, henters, hexit, if_true,
      Bool.false_eq_true, if_false] at hlast
    omega

/-- An exit restores the correlation that was in force before the entry it belongs to. -/
theorem run_of_matches {before earlier : List Step} (h : Matches before earlier entry inner)
    (hexit : leaving.exits = true) (c : Context) :
    (c.run (before ++ [leaving])) = c.run earlier := by
  rw [h.split, List.append_assoc, List.cons_append, run_append,
    run_block h.enters h.complete hexit]

/-- If no block is left that has not been entered, every exit has an entry that it belongs to,
and right after it the correlation is in force that was in force right before that entry.
Whenever a record is logged, it has the correlation in force, and is unchanged otherwise. -/
theorem exit_restores_entry (c : Context) (steps : List Step) (h : LeavesEntered steps) :
    (∀ before leaving after, steps = before ++ leaving :: after → leaving.exits = true →
      (∃ earlier entry inner, Matches before earlier entry inner) ∧
      ∀ earlier entry inner, Matches before earlier entry inner →
        (c.run (before ++ [leaving])).current = (c.run earlier).current) ∧
    ∀ before after, steps = before ++ after → ∀ service record,
      (c.run before).current.Carries record ((c.run before).current.attach record) ∧
      (c.run before).current.Carries (Log.serviced service record)
        (Log.complete service (c.run before).current record) := by
  refine ⟨?_, fun before after _ service record =>
    ⟨Correlation.carries_attach _ record, Log.carries_complete service _ record⟩⟩
  rintro before leaving after rfl hexit
  refine ⟨exists_matches h hexit, fun earlier entry inner hmatches => ?_⟩
  rw [run_of_matches hmatches hexit]

/-- A block without a name inside one that has a name, and in which everything is cleared. -/
def nestedSteps : List Step :=
  [⟨"id0", .setRequestId (some "job")⟩, ⟨"id1", .enter (some "Petclinic") (some "req-7")⟩,
    ⟨"id2", .setRequestId none⟩, ⟨"id3", .enter none (some "")⟩, ⟨"id4", .clear⟩,
    ⟨"id5", .exit⟩, ⟨"id6", .exit⟩]

/-- The inner exit restores the identifier that was set inside the outer block, and the name;
the outer exit restores what was there before. -/
theorem exit_restores_entry_nested :
    LeavesEntered nestedSteps ∧
    (empty.run (nestedSteps.take 4)).current = ⟨some "id3", none⟩ ∧
    (empty.run (nestedSteps.take 6)).current = ⟨some "id2", some "Petclinic"⟩ ∧
    (empty.run nestedSteps).current = ⟨some "job", none⟩ ∧
    ((empty.run (nestedSteps.take 6)).current.attach
        [("request_id", .text "own")]).get? "request_id" = some (.text "id2") := by
  have h : LeavesEntered nestedSteps := by decide
  obtain ⟨hexits, hlogged⟩ := exit_restores_entry empty nestedSteps h
  have hinner : IsComplete [⟨"id4", .clear⟩] := .plain rfl rfl .nil
  have houter : IsComplete [⟨"id2", .setRequestId none⟩, ⟨"id3", .enter none (some "")⟩,
      ⟨"id4", .clear⟩, ⟨"id5", .exit⟩] :=
    .plain rfl rfl (.block rfl hinner rfl .nil)
  have hfirst := (hexits (nestedSteps.take 5) ⟨"id5", .exit⟩ _ rfl rfl).2 (nestedSteps.take 3) _ _
    ⟨rfl, rfl, hinner⟩
  have hsecond := (hexits (nestedSteps.take 6) ⟨"id6", .exit⟩ _ rfl rfl).2 (nestedSteps.take 1) _ _
    ⟨rfl, rfl, houter⟩
  exact ⟨h, rfl, hfirst, hsecond,
    (hlogged (nestedSteps.take 6) _ rfl "pricing" _).1.identified "id2" rfl (by decide)⟩

end Context

end Tariff
