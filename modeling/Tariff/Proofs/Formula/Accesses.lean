import Mathlib.Data.List.Range
import Tariff.Proofs.Formula.Cursor

/-!
# Accesses to tokens

How the accesses of a descent with a cursor are to go. Those of one that finds something are a
`Walk` from where it began to where it ends: each is to the token at the position reached, and
only taking a token leads on. Those of one that is refused stay among the tokens (`Stays`): for a
fault of syntax they may end with taking the last token, which leads beyond it.

`Keeps` says so of a descent, together with what it finds and with how many accesses it needs.
Every token that it gets past allows for eight of them, and what a descent does not need is to
spare for what comes before and after it. The rules for it follow the ways in which descents
are put together, so that what is proved of a descent from them is about its results only.
-/

namespace Tariff.Formula

/-! ## Accesses in order -/

/-- Whether accesses lead from one position to another: each is to the token at the position
that was reached, and taking it leads to the next. -/
inductive Walk : Nat → List Access → Nat → Prop where
  | stay (start : Nat) : Walk start [] start
  | look {start stop : Nat} {accesses : List Access} (h : Walk start accesses stop) :
      Walk start (.look start :: accesses) stop
  | take {start stop : Nat} {accesses : List Access} (h : Walk (start + 1) accesses stop) :
      Walk start (.take start :: accesses) stop

namespace Walk

variable {start middle stop : Nat} {accesses others : List Access}

theorem append (h : Walk start accesses middle) (h' : Walk middle others stop) :
    Walk start (accesses ++ others) stop := by
  induction h with
  | stay => exact h'
  | look _ ih => exact .look (ih h')
  | take _ ih => exact .take (ih h')

theorem le (h : Walk start accesses stop) : start ≤ stop := by
  induction h with
  | stay => exact Nat.le_refl _
  | look _ ih => exact ih
  | take _ ih => exact Nat.le_of_succ_le ih

/-- Nothing beyond the position that is reached is accessed. -/
theorem position_le (h : Walk start accesses stop) : ∀ a ∈ accesses, a.position ≤ stop := by
  induction h with
  | stay => exact List.forall_mem_nil _
  | look h ih => exact List.forall_mem_cons.2 ⟨h.le, ih⟩
  | take h ih => exact List.forall_mem_cons.2 ⟨Nat.le_of_succ_le h.le, ih⟩

/-- The tokens between the two positions are taken, each once and in order. -/
theorem taken_eq (h : Walk start accesses stop) :
    accesses.filterMap Access.taken? = List.range' start (stop - start) := by
  induction h with
  | stay => simp
  | look _ ih => exact ih
  | @take start stop accesses h ih =>
    have hle := h.le
    show start :: accesses.filterMap Access.taken? = _
    rw [ih, show stop - start = stop - (start + 1) + 1 by omega, List.range'_succ]

/-- No token from the position that is reached on is taken. -/
theorem not_mem_taken {position : Nat} (h : Walk start accesses stop) (hle : stop ≤ position) :
    position ∉ accesses.filterMap Access.taken? := by
  have hstart := h.le
  rw [h.taken_eq, List.mem_range'_1]
  omega

end Walk

/-- Whether accesses before a refusal stay among the tokens up to a last one: they lead to one of
them, and it may be taken, as the very last thing before a fault of syntax is found. -/
def Stays (last start : Nat) (accesses : List Access) (refusal : Refusal SyntaxFault) : Prop :=
  ∃ before stop, Walk start before stop ∧ stop ≤ last ∧ (accesses = before ∨
    accesses = before ++ [.take stop] ∧ ∃ fault, refusal = .because fault)

theorem Walk.stays {last start middle : Nat} {accesses others : List Access}
    {refusal : Refusal SyntaxFault} (h : Walk start accesses middle)
    (h' : Stays last middle others refusal) : Stays last start (accesses ++ others) refusal := by
  obtain ⟨before, stop, hwalk, hle, hend⟩ := h'
  refine ⟨accesses ++ before, stop, h.append hwalk, hle, ?_⟩
  rcases hend with rfl | ⟨rfl, hfault⟩
  · exact .inl rfl
  · exact .inr ⟨(List.append_assoc _ _ _).symm, hfault⟩

namespace Stays

variable {last start : Nat} {accesses : List Access} {refusal : Refusal SyntaxFault}

theorem position_le (h : Stays last start accesses refusal) :
    ∀ a ∈ accesses, a.position ≤ last := by
  obtain ⟨before, stop, hwalk, hle, rfl | ⟨rfl, -⟩⟩ := h
  · exact fun a ha => Nat.le_trans (hwalk.position_le a ha) hle
  · exact List.forall_mem_append.2
      ⟨fun a ha => Nat.le_trans (hwalk.position_le a ha) hle, List.forall_mem_singleton.2 hle⟩

theorem exists_taken_eq (h : Stays last start accesses refusal) :
    ∃ n, accesses.filterMap Access.taken? = List.range' start n := by
  obtain ⟨before, stop, hwalk, -, rfl | ⟨rfl, -⟩⟩ := h
  · exact ⟨_, hwalk.taken_eq⟩
  · have hle := hwalk.le
    refine ⟨stop - start + 1, ?_⟩
    rw [List.filterMap_append, hwalk.taken_eq, List.range'_concat, Nat.one_mul,
      Nat.add_sub_cancel' hle]
    rfl

/-- The last token is not taken before anything else, and only for a fault of syntax. -/
theorem getLast?_eq (h : Stays last start accesses refusal)
    (hlast : last ∈ accesses.filterMap Access.taken?) :
    accesses.getLast? = some (.take last) ∧ ∃ fault, refusal = .because fault := by
  obtain ⟨before, stop, hwalk, hle, hend⟩ := h
  have hbefore := hwalk.not_mem_taken hle
  rcases hend with rfl | ⟨rfl, hfault⟩
  · exact absurd hlast hbefore
  · rw [List.filterMap_append] at hlast
    rcases List.mem_append.1 hlast with hmem | hmem
    · exact absurd hmem hbefore
    · rw [List.getLast?_concat, List.mem_singleton.1 hmem]
      exact ⟨rfl, hfault⟩

end Stays

/-! ## Descents among tokens -/

variable {α β : Type} {last start stop : Nat} {spare spare' : Int}

/-- Whether a descent from a position keeps to the tokens up to a last one. With a result it
comes to a position among them, and it has no failure but refusals. Every token that it gets
past allows for eight accesses, and some of these are to spare. -/
def Keeps (last : Nat) (spare : Int) (start : Nat) (x : Descent α) (P : α → Nat → Prop)
    (R : Refusal SyntaxFault → Prop) : Prop :=
  match x.result with
  | .ok a => ∃ stop, Walk start x.accesses stop ∧ stop ≤ last ∧
      x.accesses.length + spare ≤ 8 * ((stop : Int) - start) ∧ P a stop
  | .error failure => ∃ refusal, failure = .ofRefusal refusal ∧
      Stays last start x.accesses refusal ∧
      x.accesses.length + spare ≤ 8 * ((last : Int) + 1 - start) ∧ R refusal

namespace Keeps

variable {x : Descent α} {next : α → Descent β} {P : α → Nat → Prop} {Q : β → Nat → Prop}
  {R R' : Refusal SyntaxFault → Prop}

theorem mono (hx : Keeps last spare start x P R) (hle : spare' ≤ spare) :
    Keeps last spare' start x P R := by
  obtain ⟨accesses, result⟩ := x
  match result with
  | .ok a =>
    obtain ⟨stop, hwalk, hstop, hcost, ha⟩ := hx
    exact ⟨stop, hwalk, hstop, by omega, ha⟩
  | .error failure =>
    obtain ⟨refusal, hfailure, hstays, hcost, hrefusal⟩ := hx
    exact ⟨refusal, hfailure, hstays, by omega, hrefusal⟩

theorem imp {P' : α → Nat → Prop} (hx : Keeps last spare start x P R)
    (hP : ∀ a stop, P a stop → P' a stop) (hR : ∀ refusal, R refusal → R' refusal) :
    Keeps last spare start x P' R' := by
  obtain ⟨accesses, result⟩ := x
  match result with
  | .ok a =>
    obtain ⟨stop, hwalk, hstop, hcost, ha⟩ := hx
    exact ⟨stop, hwalk, hstop, hcost, hP a stop ha⟩
  | .error failure =>
    obtain ⟨refusal, hfailure, hstays, hcost, hrefusal⟩ := hx
    exact ⟨refusal, hfailure, hstays, hcost, hR refusal hrefusal⟩

/-- A result that is there already. -/
theorem pure {a : α} (hle : start ≤ last) (ha : P a start) :
    Keeps last 0 start (pure a) P R := by
  refine ⟨start, .stay start, hle, ?_, ha⟩
  show ((0 : Nat) : Int) + 0 ≤ _
  omega

/-- A refusal at the position that was reached. -/
theorem refused {refusal : Refusal SyntaxFault} (hle : start ≤ last) (hrefusal : R refusal) :
    Keeps last 0 start (⟨[], .error (.ofRefusal refusal)⟩ : Descent α) P R := by
  refine ⟨refusal, rfl, ⟨[], start, .stay start, hle, .inl rfl⟩, ?_, hrefusal⟩
  show ((0 : Nat) : Int) + 0 ≤ _
  omega

theorem ofExcept {y : Except (Refusal SyntaxFault) α} (hle : start ≤ last) :
    Keeps last 0 start (.ofExcept y) (fun a stop => start = stop ∧ y = .ok a)
      (fun refusal => y = .error refusal) := by
  match y with
  | .ok a =>
    refine ⟨start, .stay start, hle, ?_, rfl, rfl⟩
    show ((0 : Nat) : Int) + 0 ≤ _
    omega
  | .error refusal => exact refused hle rfl

/-- Going on from accesses that lead to a result. -/
theorem after {accesses : List Access} {middle : Nat} {a : α} (hwalk : Walk start accesses middle)
    (h : Keeps last spare middle (next a) Q R) :
    Keeps last (8 * ((middle : Int) - start) - accesses.length + spare) start
      (⟨accesses, .ok a⟩ >>= next) Q R := by
  show Keeps last _ start ⟨accesses ++ (next a).accesses, (next a).result⟩ Q R
  generalize next a = y at h
  obtain ⟨others, result⟩ := y
  match result with
  | .ok b =>
    obtain ⟨stop, hwalk', hle, hcost, hb⟩ := h
    refine ⟨stop, hwalk.append hwalk', hle, ?_, hb⟩
    simp only [List.length_append] at hcost ⊢
    omega
  | .error failure =>
    obtain ⟨refusal, hfailure, hstays, hcost, hrefusal⟩ := h
    refine ⟨refusal, hfailure, hwalk.stays hstays, ?_, hrefusal⟩
    simp only [List.length_append] at hcost ⊢
    omega

/-- Past the token at the position. -/
theorem after_take {total : Int} {a : α} (h : Keeps last (total - 7) (start + 1) (next a) Q R) :
    Keeps last total start (⟨[.take start], .ok a⟩ >>= next) Q R :=
  (after (.take (.stay _)) h).mono (by simp only [List.length_singleton]; omega)

/-- After a look at the token at the position. -/
theorem after_look {total : Int} {a : α} (h : Keeps last (total + 1) start (next a) Q R) :
    Keeps last total start (⟨[.look start], .ok a⟩ >>= next) Q R :=
  (after (.look (.stay _)) h).mono (by simp only [List.length_singleton]; omega)

/-- After a look at the token at the position, and past it. -/
theorem after_accept {total : Int} {a : α} (h : Keeps last (total - 6) (start + 1) (next a) Q R) :
    Keeps last total start (⟨[.look start, .take start], .ok a⟩ >>= next) Q R :=
  (after (.look (.take (.stay _))) h).mono (by simp only [List.length_cons, List.length_nil]; omega)

/-- Going on from a descent. What comes after it must not count on the accesses that it spares,
since it may be refused. -/
theorem bind {total : Int} (hx : Keeps last spare start x P R') (rest : Int)
    (hnext : ∀ a stop, start ≤ stop → stop ≤ last → P a stop →
      Keeps last rest stop (next a) Q R)
    (hR : ∀ refusal, R' refusal → R refusal) (htotal : total ≤ spare ∧ total ≤ spare + rest) :
    Keeps last total start (x >>= next) Q R := by
  obtain ⟨accesses, result⟩ := x
  match result with
  | .ok a =>
    obtain ⟨middle, hwalk, hle, hcost, ha⟩ := hx
    have hcost : (accesses.length : Int) + spare ≤ 8 * ((middle : Int) - start) := hcost
    exact (after hwalk (hnext a middle hwalk.le hle ha)).mono (by omega)
  | .error failure =>
    obtain ⟨refusal, hfailure, hstays, hcost, hrefusal⟩ := hx
    have hcost : (accesses.length : Int) + spare ≤ 8 * ((last : Int) + 1 - start) := hcost
    refine ⟨refusal, hfailure, hstays, ?_, hR refusal hrefusal⟩
    show (accesses.length : Int) + _ ≤ _
    omega

/-- The last token may be taken too, if nothing but a fault comes after it. -/
theorem refuse {a : α} {fault : SyntaxFault} (hle : start ≤ last)
    (hnext : next a = .ofExcept (.error (.because fault))) (hfault : R (.because fault)) :
    Keeps last 7 start (⟨[.take start], .ok a⟩ >>= next) Q R := by
  rw [Descent.ok_bind, hnext]
  refine ⟨.because fault, rfl, ⟨[], start, .stay start, hle, .inr ⟨rfl, fault, rfl⟩⟩, ?_, hfault⟩
  show ((1 : Nat) : Int) + 7 ≤ _
  omega

end Keeps

end Tariff.Formula
