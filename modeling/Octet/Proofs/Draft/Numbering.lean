import Mathlib.Data.List.Nodup
import Octet.Proofs.Draft.Appending
import Octet.Proofs.Layout.Demands

/-!
# The numbers of texts and variables

A ledger keeps its pool of texts twice, as a list and as a dictionary, and nothing in it says that
the two agree.  They always do (`Ledger.Canonical`): no text is in the pool twice, the dictionary
has each text of the pool with its place and nothing else, and there are 256 texts at most.  The
same goes for the variables, whose registers are their places among the names.

This holds after whatever a host does with a new ledger (`Operation`), also if some of it fails, as
it is preserved by every step that a ledger takes (`Grows.canonical`).  A step that finds its entry
changes nothing, and a step that does not find it puts it behind all others.  Therefore the entries
are those that were asked for, in the order in which they were asked for first (`Asked`), and for a
program that is laid out these are its own texts and variables.
-/

namespace Octet

/-- A table after something was asked for that may be in there already. -/
def enrol (keys : List String) (x : String) : List String :=
  if x ∈ keys then keys else keys ++ [x]

/-- What was asked for, each once, in the order in which it was asked for first. -/
theorem foldl_enrol (xs : List String) : xs.foldl enrol [] = xs.eraseDups := by
  induction xs using List.reverseRecOn with
  | nil => rfl
  | append_singleton xs x ih =>
    rw [List.foldl_append, ih, List.foldl_cons, List.foldl_nil, enrol, Demand.eraseDups_concat]
    simp only [List.mem_eraseDups]

/-- The texts of a program, from front to back. -/
def Program.texts (p : Program) : List String :=
  Stmt.textsList p.items

/-- The variables that a program binds, from front to back. -/
def Program.bindings (p : Program) : List String :=
  Stmt.bindingsList p.items

namespace Ledger

open Entry

/-! ## Canonical ledgers -/

/-- The tables of a ledger have their entries once and numbered in order. -/
structure Canonical (l : Ledger) : Prop where
  constants_nodup : l.constants.Nodup
  constants_length : l.constants.length ≤ 256
  numbers : l.numbers = l.constants.zipIdx
  names_nodup : l.names.Nodup
  names_length : l.names.length ≤ 256
  registers : l.registers = l.names.zipIdx

theorem Canonical.consistent {l : Ledger} (h : l.Canonical) : l.Consistent where
  numbers x := by
    rw [h.numbers, lookup_zipIdx]
    exact Option.map_id'
  registers x := by
    rw [h.registers, lookup_zipIdx]
    exact Option.map_id'

theorem canonical_reset (labels : List (Option Nat)) : ({ labels := labels } : Ledger).Canonical :=
  ⟨List.nodup_nil, Nat.zero_le _, rfl, List.nodup_nil, Nat.zero_le _, rfl⟩

theorem Canonical.withText {l : Ledger} (h : l.Canonical) {x : String} (hx : x ∉ l.constants)
    (hroom : l.constants.length < maxConstants) : (l.withText x).Canonical where
  constants_nodup := by
    rw [Ledger.withText, ← List.concat_eq_append]
    exact h.constants_nodup.concat hx
  constants_length := by
    rw [Ledger.withText, List.length_append]
    exact hroom
  numbers := by
    rw [Ledger.withText, h.numbers, List.zipIdx_append, Nat.zero_add]
    rfl
  names_nodup := h.names_nodup
  names_length := h.names_length
  registers := h.registers

theorem Canonical.withName {l : Ledger} (h : l.Canonical) {x : String} (hx : x ∉ l.names)
    (hroom : l.registers.length < maxRegisters) : (l.withName x).Canonical where
  constants_nodup := h.constants_nodup
  constants_length := h.constants_length
  numbers := h.numbers
  names_nodup := by
    rw [names_withName, ← List.concat_eq_append]
    exact h.names_nodup.concat hx
  names_length := by
    rw [names_withName, List.length_append, length_names]
    exact hroom
  registers := by
    rw [names_withName, List.zipIdx_append, ← h.registers, Nat.zero_add, length_names]
    rfl

/-- Steps keep a ledger canonical, and enrol what they ask for. -/
theorem Grows.canonical {b : Bool} {xs ns : List String} {l l' : Ledger} (h : Grows b xs ns l l')
    (hl : l.Canonical) :
    l'.Canonical ∧ l'.constants = xs.foldl enrol l.constants ∧
      l'.names = ns.foldl enrol l.names := by
  induction h with
  | refl | instr | jump | label | mark =>
    exact ⟨⟨hl.constants_nodup, hl.constants_length, hl.numbers, hl.names_nodup, hl.names_length,
      hl.registers⟩, rfl, rfl⟩
  | @text _ l x hx hroom =>
    rw [hl.consistent.numbers, List.idxOf?_eq_none_iff] at hx
    exact ⟨hl.withText hx hroom, (if_neg hx).symm, rfl⟩
  | @oldText _ l x i hx =>
    rw [hl.consistent.numbers] at hx
    exact ⟨hl, (if_pos (mem_of_idxOf? hx)).symm, rfl⟩
  | @name _ l x hx hroom =>
    rw [hl.consistent.registers, List.idxOf?_eq_none_iff] at hx
    exact ⟨hl.withName hx hroom, rfl, (names_withName l x).trans (if_neg hx).symm⟩
  | @oldName _ l x r hx =>
    rw [hl.consistent.registers] at hx
    exact ⟨hl, rfl, (if_pos (mem_of_idxOf? hx)).symm⟩
  | loop frame _ ih =>
    obtain ⟨hcanonical, hconstants, hnames⟩ := ih ⟨hl.constants_nodup, hl.constants_length,
      hl.numbers, hl.names_nodup, hl.names_length, hl.registers⟩
    exact ⟨⟨hcanonical.constants_nodup, hcanonical.constants_length, hcanonical.numbers,
      hcanonical.names_nodup, hcanonical.names_length, hcanonical.registers⟩, hconstants, hnames⟩
  | trans _ _ ih ih' =>
    obtain ⟨hfirst, hconstants, hnames⟩ := ih hl
    obtain ⟨hsecond, hconstants', hnames'⟩ := ih' hfirst
    refine ⟨hsecond, ?_, ?_⟩
    · rw [hconstants', hconstants, List.foldl_append]
    · rw [hnames', hnames, List.foldl_append]

/-! ## Operations -/

/-- What a host does with a ledger. -/
inductive Operation where
  /-- Lay a statement out. -/
  | statement (s : Stmt)
  /-- Lay an expression out. -/
  | expression (e : Expr)
  /-- Ask for the number of a text. -/
  | constant (value : String) (site : Site)
  /-- Ask for the register of a variable, which may be a new one. -/
  | allocate (name : String) (site : Site)
  /-- Ask for the register of a variable that is bound. -/
  | lookup (name : String) (site : Site)

namespace Operation

/-- The action of an operation. -/
def action : Operation → Entry Unit
  | statement s => s.enter
  | expression e => e.enter
  | constant value site => do let _ ← Ledger.constant value site
  | allocate name site => do let _ ← Ledger.allocate name site
  | lookup name site => do let _ ← Ledger.lookup name site

/-- The texts that an operation asks for. -/
def texts : Operation → List String
  | statement s => s.texts
  | expression e => e.texts
  | constant value _ => [value]
  | allocate .. | lookup .. => []

/-- The variables that an operation binds. -/
def bindings : Operation → List String
  | statement s => s.bindings
  | allocate name _ => [name]
  | expression _ | constant .. | lookup .. => []

theorem grows (op : Operation) : Entry.Grows true op.texts op.bindings op.action := by
  cases op with
  | statement s => exact s.grows
  | expression e => exact e.grows
  | constant value site => exact (grows_constant value site).before fun _ => grows_pure ()
  | allocate name site => exact (grows_allocate name site).before fun _ => grows_pure ()
  | lookup name site => exact (grows_lookup name site).before fun _ => grows_pure ()

end Operation

/-- The ledger after operations, whether they fail or not. -/
def operated (l : Ledger) (ops : List Operation) : Ledger :=
  ops.foldl (fun l op => (op.action.perform l).2) l

/-- Operations that were carried out on a ledger asked for these texts and variables.  One that
failed asked for the first few of its own. -/
inductive Asked : Ledger → List Operation → List String → List String → Prop
  | nil (l : Ledger) : Asked l [] [] []
  | cons {l : Ledger} {op : Operation} {ops : List Operation} {xs ns xs' ns' : List String} :
      xs <+: op.texts → ns <+: op.bindings →
      ((op.action.perform l).1 = .ok () → xs = op.texts ∧ ns = op.bindings) →
      Asked (op.action.perform l).2 ops xs' ns' → Asked l (op :: ops) (xs ++ xs') (ns ++ ns')

/-- Operations keep a ledger canonical, and enrol what they ask for. -/
theorem Canonical.operated {l : Ledger} (hl : l.Canonical) (ops : List Operation) :
    (l.operated ops).Canonical ∧ ∃ texts names, Asked l ops texts names ∧
      (l.operated ops).constants = texts.foldl enrol l.constants ∧
      (l.operated ops).names = names.foldl enrol l.names := by
  induction ops generalizing l with
  | nil => exact ⟨hl, [], [], .nil l, rfl, rfl⟩
  | cons op ops ih =>
    obtain ⟨xs, ns, hgrows, hxs, hns, hok⟩ := op.grows l
    obtain ⟨hcanonical, hconstants, hnames⟩ := hgrows.canonical hl
    obtain ⟨hend, xs', ns', hasked, hconstants', hnames'⟩ := ih hcanonical
    refine ⟨hend, xs ++ xs', ns ++ ns', .cons hxs hns (hok ()) hasked, ?_, ?_⟩
    · rw [List.foldl_append, ← hconstants]
      exact hconstants'
    · rw [List.foldl_append, ← hnames]
      exact hnames'

theorem appends_operated (l : Ledger) (ops : List Operation) : l.Appends (l.operated ops) := by
  induction ops generalizing l with
  | nil => exact .refl l
  | cons op ops ih => exact (op.grows.appends l).trans (ih _)

/-! ## Numbers once given -/

/-- An entry of a dictionary is found in one that only has more behind it. -/
theorem lookup_mono {table table' : List (String × Nat)} (h : table <+: table') {x : String}
    {i : Nat} (hx : table.lookup x = some i) : table'.lookup x = some i := by
  obtain ⟨more, rfl⟩ := h
  rw [List.lookup_append, hx]
  rfl

/-- An entry that is new goes behind all others. -/
theorem lookup_new {table : List (String × Nat)} {x : String} (h : table.lookup x = none)
    (n : Nat) : (table ++ [(x, n)]).lookup x = some n := by
  rw [List.lookup_append, h]
  simp

/-- A text has this number, whatever is done from here on. -/
def KeepsNumber (l : Ledger) (x : String) (i : Nat) : Prop :=
  ∀ ops site, (constant x site).perform (l.operated ops) = (.ok i, l.operated ops)

/-- A variable has this register, whatever is done from here on. -/
def KeepsRegister (l : Ledger) (x : String) (r : Nat) : Prop :=
  ∀ ops site, (allocate x site).perform (l.operated ops) = (.ok r, l.operated ops) ∧
    (lookup x site).perform (l.operated ops) = (.ok r, l.operated ops)

/-- An action finds the number of an entry in a dictionary, and what it yields is there afterwards. -/
structure FindsIn (dictionary : Ledger → List (String × Nat)) (x : String) (a : Entry Nat) :
    Prop where
  found : ∀ l i, (dictionary l).lookup x = some i → a.perform l = (.ok i, l)
  stays : ∀ l i l', a.perform l = (.ok i, l') → (dictionary l').lookup x = some i

/-- Taking a number from a dictionary that grows by the entry. -/
theorem findsIn_takeNumber {dictionary : Ledger → List (String × Nat)} {x : String}
    {next : Ledger → Nat} {most : Nat} {grown : Ledger → Ledger} {refusal : CompileError}
    (hgrown : ∀ l, dictionary (grown l) = dictionary l ++ [(x, next l)]) :
    FindsIn dictionary x (do
      let l ← get
      takeNumber ((dictionary l).lookup x) (next l) most (grown l) refusal) where
  found l i hi := by rw [perform_get_bind, hi]; rfl
  stays l i l' h := by
    obtain ⟨j, hj, hfound⟩ | ⟨hnone, ⟨-, hnew⟩ | ⟨-, hrefused⟩⟩ :=
      takeNumber_cases ((dictionary l).lookup x) (next l) most (grown l) refusal l
    · cases hfound.symm.trans h
      exact hj
    · cases hnew.symm.trans h
      rw [hgrown]
      exact lookup_new hnone _
    · cases hrefused.symm.trans h

theorem constant_findsIn (x : String) (site : Site) : FindsIn numbers x (constant x site) :=
  findsIn_takeNumber fun _ => rfl

theorem allocate_findsIn (x : String) (site : Site) : FindsIn registers x (allocate x site) :=
  findsIn_takeNumber fun _ => rfl

theorem lookup_findsIn (x : String) (site : Site) : FindsIn registers x (lookup x site) where
  found l i hi := by rw [lookup, perform_get_bind, hi]; rfl
  stays l i l' h := by
    obtain ⟨j, hj, hfound⟩ | ⟨-, e, hfailed⟩ := lookup_cases x site l
    · cases hfound.symm.trans h
      exact hj
    · cases hfailed.symm.trans h

theorem keepsNumber_of_lookup {l : Ledger} {x : String} {i : Nat}
    (h : l.numbers.lookup x = some i) : l.KeepsNumber x i := fun ops site =>
  (constant_findsIn x site).found _ i (lookup_mono (l.appends_operated ops).numbers h)

theorem keepsRegister_of_lookup {l : Ledger} {x : String} {r : Nat}
    (h : l.registers.lookup x = some r) : l.KeepsRegister x r := by
  intro ops site
  have hlater := lookup_mono (l.appends_operated ops).registers h
  exact ⟨(allocate_findsIn x site).found _ r hlater, (lookup_findsIn x site).found _ r hlater⟩

/-! ## Programs -/

/-- A program that is laid out has its texts and variables in the tables. -/
theorem tables_of_generate {p : Program} {l l' : Ledger} {image : Image}
    (h : (generate p).perform l = (.ok image, l')) :
    l'.Canonical ∧ image.constants = p.texts.eraseDups ∧ l'.constants = p.texts.eraseDups ∧
      l'.names = p.bindings.eraseDups := by
  obtain ⟨_, l₁, h₁, h⟩ := bind_ok h
  obtain ⟨_, l₂, h₂, h⟩ := bind_ok h
  obtain ⟨_, l₃, h₃, h₄⟩ := bind_ok h
  cases h₁
  obtain ⟨xs, ns, hgrows, -, -, hok⟩ := Stmt.growsList p.items { labels := l.labels }
  rw [h₂] at hgrows hok
  obtain ⟨rfl, rfl⟩ := hok _ rfl
  obtain ⟨hcanonical, hconstants, hnames⟩ := hgrows.canonical (canonical_reset _)
  -- writing the addresses leaves the tables alone
  have hresolve : l₃ = (resolve.perform l₂).2 := by rw [h₃]
  subst hresolve
  cases h₄
  have htexts : l₂.constants = p.texts.eraseDups := hconstants.trans (foldl_enrol _)
  exact ⟨⟨hcanonical.constants_nodup, hcanonical.constants_length, hcanonical.numbers,
    hcanonical.names_nodup, hcanonical.names_length, hcanonical.registers⟩, htexts, htexts,
    hnames.trans (foldl_enrol _)⟩

/-- The dictionary of the pool maps each text to its place. -/
theorem Canonical.lookup_iff {l : Ledger} (h : l.Canonical) (x : String) (i : Nat) :
    l.numbers.lookup x = some i ↔ l.constants[i]? = some x := by
  rw [h.consistent.numbers, List.idxOf?_eq_some_iff, List.getElem?_eq_some_iff]
  refine exists_congr fun hi => and_iff_left_of_imp fun hx j hj heq => ?_
  have hsame := h.constants_nodup.getElem_inj_iff.1 (heq.trans hx.symm)
  omega

/-- **The numbers of texts and variables are canonical**, whatever a host does with a new ledger,
also if some of it fails.

* No text is in the pool twice, there are 256 at most, and the dictionary has each of them with its
  place and nothing else.  The variables have the registers from zero on, of which there are 256 at
  most.
* The texts and variables are those that were asked for, in the order in which they were asked for
  first.
* A number or a register that was given to someone stays the same.
* After a program was laid out, the pool has its texts and the registers go to its variables, each
  in the order in which they are laid out first.  The same goes for drafts. -/
theorem tables_canonical :
    (∀ ops, (operated {} ops).Canonical ∧
      (∀ x i, (operated {} ops).numbers.lookup x = some i ↔
        (operated {} ops).constants[i]? = some x) ∧
      (∃ texts names, Asked {} ops texts names ∧
        (operated {} ops).constants = texts.eraseDups ∧ (operated {} ops).names = names.eraseDups) ∧
      (∀ x i, (operated {} ops).numbers.lookup x = some i → (operated {} ops).KeepsNumber x i) ∧
      (∀ x r, (operated {} ops).registers.lookup x = some r → (operated {} ops).KeepsRegister x r) ∧
      (∀ x site i l', (constant x site).perform (operated {} ops) = (.ok i, l') →
        l'.KeepsNumber x i) ∧
      (∀ x site r l', (allocate x site).perform (operated {} ops) = (.ok r, l') →
        l'.KeepsRegister x r) ∧
      ∀ x site r l', (lookup x site).perform (operated {} ops) = (.ok r, l') →
        l'.KeepsRegister x r) ∧
    (∀ p l image l', (generate p).perform l = (.ok image, l') →
      image.constants = p.texts.eraseDups ∧ l'.constants = p.texts.eraseDups ∧
        l'.numbers = p.texts.eraseDups.zipIdx ∧ l'.registers = p.bindings.eraseDups.zipIdx) ∧
    ∀ p d image d', (Draft.generate p).perform d = (.ok image, d') →
      image.constants = p.texts.eraseDups ∧ d'.constants = p.texts.eraseDups ∧
        d'.registers = p.bindings.eraseDups := by
  refine ⟨fun ops => ?_, fun p l image l' h => ?_, fun p d image d' h => ?_⟩
  · obtain ⟨hcanonical, texts, names, hasked, hconstants, hnames⟩ :=
      (canonical_reset []).operated ops
    exact ⟨hcanonical, hcanonical.lookup_iff,
      ⟨texts, names, hasked, hconstants.trans (foldl_enrol _), hnames.trans (foldl_enrol _)⟩,
      fun _ _ => keepsNumber_of_lookup, fun _ _ => keepsRegister_of_lookup,
      fun x site _ _ h => keepsNumber_of_lookup ((constant_findsIn x site).stays _ _ _ h),
      fun x site _ _ h => keepsRegister_of_lookup ((allocate_findsIn x site).stays _ _ _ h),
      fun x site _ _ h => keepsRegister_of_lookup ((lookup_findsIn x site).stays _ _ _ h)⟩
  · obtain ⟨hcanonical, himage, hconstants, hnames⟩ := tables_of_generate h
    exact ⟨himage, hconstants, hconstants ▸ hcanonical.numbers, hnames ▸ hcanonical.registers⟩
  · rw [Draft.perform_generate_eq_ledger p (l := ofDraft d) rfl] at h
    obtain ⟨hok, rfl⟩ := Prod.mk.inj h
    obtain ⟨-, himage, hconstants, hnames⟩ := tables_of_generate (Prod.ext hok rfl)
    exact ⟨himage, hconstants, hnames⟩

/-- What a host may do, with one text twice, a function that is not there, and a variable that is
looked up before it is bound. -/
def meddling : List Operation :=
  [.statement (.letDecl ⟨1, 1⟩ "x" (.literal ⟨1, 9⟩ (some (.text "one")))),
    .expression (.call ⟨2, 1⟩ "nothing" []),
    .lookup "y" .unknown,
    .statement stranded,
    .constant "one" .unknown]

/-- A program with a text and a variable that come twice. -/
def repeating : Program :=
  ⟨[.letDecl ⟨1, 1⟩ "x" (.literal ⟨1, 9⟩ (some (.text "one"))),
    .letDecl ⟨2, 1⟩ "y" (.literal ⟨2, 9⟩ (some (.text "two"))),
    .letDecl ⟨3, 1⟩ "x" (.literal ⟨3, 9⟩ (some (.text "one")))]⟩

theorem tables_canonical_repeating :
    (operated {} meddling).Canonical ∧
    (operated {} meddling).constants = ["one", "hi"] ∧
    (operated {} meddling).registers = [("x", 0)] ∧
    (operated {} meddling).KeepsNumber "hi" 1 ∧
    (operated {} meddling).KeepsRegister "x" 0 ∧
    ((Draft.generate repeating).perform {}).1 =
      .ok ⟨[0xfa, 0, 0xfc, 0, 0xfa, 1, 0xfc, 1, 0xfa, 0, 0xfc, 0], ["one", "two"]⟩ ∧
    repeating.texts.eraseDups = ["one", "two"] ∧
    ((Draft.generate repeating).perform {}).2.registers = repeating.bindings.eraseDups := by
  obtain ⟨hops, -, hdraft⟩ := tables_canonical
  obtain ⟨hcanonical, -, -, hnumber, hregister, -⟩ := hops meddling
  have hlaidOut : ((Draft.generate repeating).perform {}).1 =
      .ok ⟨[0xfa, 0, 0xfc, 0, 0xfa, 1, 0xfc, 1, 0xfa, 0, 0xfc, 0], ["one", "two"]⟩ := by
    decide +kernel
  obtain ⟨himage, -, hregisters⟩ := hdraft repeating {} _ _ (Prod.ext hlaidOut rfl)
  exact ⟨hcanonical, by decide +kernel, by decide +kernel, hnumber "hi" 1 (by decide +kernel),
    hregister "x" 0 (by decide +kernel), hlaidOut, himage.symm, hregisters⟩

end Ledger
end Octet
