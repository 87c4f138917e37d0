import Octet.Proofs.Meaning.Execution

/-!
# Laid out trees do what they mean

The instructions of a tree, wherever they are placed in the code, do what the tree
means.  The proof follows the tree: what is known of the parts is put together by the
rules of `Octet.Machine.Arrives`, and the addresses in between are the sizes of the
parts.

What follows a block of a conditional takes two statements.  The machine comes to it
behind the block, and then it has to get to the end of the conditional without doing
anything (`Chain.skips`), or it comes to it from a failed test, and then it has to do
what the chain means (`Chain.arrives`).
-/

namespace Octet

open Code Machine Effect

variable {setup : Setup} {t : Tables}

/-! ## Expressions -/

/-- One instruction at a place. -/
theorem goes_single {a : Nat} {i : Instr} {m : Meaning Unit} {w : World} {s : State}
    (h : Simulates setup t Same m (execute BuiltinTable.standard i))
    (hplaced : Placed setup.image.code a [i]) (hat : At setup a s) (hmatches : Matches t w s) :
    Goes setup t (fun _ => a + i.size) s (m.perform setup.maxStack w) :=
  goes_of_simulates h hat hmatches (fetch?_of_placed hplaced)

/-- The code of a part, and then one instruction. -/
theorem goes_snoc {a n : Nat} {is : List Instr} {i : Instr} {m m' : Meaning Unit} {w : World}
    {s : State} (h : Simulates setup t Same m' (execute BuiltinTable.standard i))
    (hplaced : Placed setup.image.code a (is ++ [i])) (hsize : Code.size is = n)
    (hgoes : Goes setup t (fun _ => a + n) s (m.perform setup.maxStack w)) :
    Goes setup t (fun _ => a + (n + i.size)) s
      ((m >>= fun _ => m').perform setup.maxStack w) := by
  refine hgoes.bind fun _ w' s' hat hmatches => ?_
  have hlast := (placed_append hplaced).2
  rw [hsize] at hlast
  have hnext := goes_single h hlast hat hmatches
  rw [Nat.add_assoc] at hnext
  exact hnext

theorem goes_literal (hconstants : setup.image.constants = t.constants) {pos : Pos}
    {value : Option Scalar} {is : List Instr} {a : Nat} {w : World} {s : State}
    (h : literalInstrs? t value = some is) (hplaced : Placed setup.image.code a is)
    (hat : At setup a s) (hmatches : Matches t w s) :
    Goes setup t (fun _ => a + Expr.size (.literal pos value)) s
      ((Expr.literal pos value).meaning.perform setup.maxStack w) := by
  match value with
  | some (.bool b) =>
    cases h
    exact goes_single (simulates_push (.bool b)) hplaced hat hmatches
  | some (.int n) =>
    rw [literalInstrs?] at h
    split at h
    · rename_i hn
      cases h
      exact goes_single (simulates_pushInt hn) hplaced hat hmatches
    · cases h
  | some (.text x) =>
    obtain ⟨i, hi, rfl⟩ := Option.map_eq_some_iff.1 h
    exact goes_single (simulates_loadConstant hconstants (Tables.idxOf?_of_constant? hi))
      hplaced hat hmatches
  | some (.real x) => cases h
  | none => cases h

/-- The built-in that shows the machine has a name of its own. -/
theorem ne_debug_of_ofName? {name : String} {b : Builtin} (h : Builtin.ofName? name = some b)
    (hname : (name == "debug") = false) : b ≠ .debug := by
  rintro rfl
  have hfound := List.find?_some h
  have heq : name = "debug" := (eq_of_beq hfound).symm
  rw [heq] at hname
  cases hname

mutual

/-- **The code of an expression does what it means.** -/
theorem Expr.goes (hconstants : setup.image.constants = t.constants) :
    ∀ (e : Expr) {is : List Instr} {a : Nat} {w : World} {s : State},
    e.instrs? t = some is → Placed setup.image.code a is → e.callsDebug = false →
    At setup a s → Matches t w s →
    Goes setup t (fun _ => a + e.size) s (e.meaning.perform setup.maxStack w)
  | .literal pos value, is, a, w, s, h, hplaced, hdebug, hat, hmatches => by
    rw [Expr.instrs?] at h
    exact goes_literal hconstants h hplaced hat hmatches
  | .identifier pos name, is, a, w, s, h, hplaced, hdebug, hat, hmatches => by
    rw [Expr.instrs?] at h
    obtain ⟨r, hr, rfl⟩ := Option.map_eq_some_iff.1 h
    have hload : Simulates setup t Same (do Meaning.push (← Meaning.valueOf name))
        (execute BuiltinTable.standard (.loadRegister r)) :=
      (simulates_load (Tables.idxOf?_of_register? hr)).bind fun d v hv => simulates_push hv
    rw [Expr.size, Expr.meaning]
    exact goes_single hload hplaced hat hmatches
  | .unary pos op operand, is, a, w, s, h, hplaced, hdebug, hat, hmatches => by
    rw [Expr.instrs?] at h
    rw [Expr.callsDebug] at hdebug
    rw [Expr.size, Expr.meaning]
    by_cases hleast : op = "-" ∧ operand.isLeastMagnitude
    · rw [if_pos hleast] at h ⊢
      rw [if_pos hleast]
      cases h
      exact goes_single (simulates_pushInt (by decide)) hplaced hat hmatches
    · rw [if_neg hleast] at h ⊢
      rw [if_neg hleast]
      obtain ⟨js, hjs, h⟩ := Option.bind_eq_some_iff.1 h
      obtain ⟨i, hi, h⟩ := Option.bind_eq_some_iff.1 h
      cases h
      have hone := size_operator hi
      obtain ⟨u, hu, rfl⟩ := ofSpelling?_of_unary hi
      rw [hu]
      have hgoes := Expr.goes hconstants operand hjs (placed_append hplaced).1 hdebug hat hmatches
      have hall := goes_snoc (simulates_unary u) hplaced (Expr.size_instrs hjs) hgoes
      rw [hone] at hall
      exact hall
  | .binary pos left op right, is, a, w, s, h, hplaced, hdebug, hat, hmatches => by
    rw [Expr.callsDebug, Bool.or_eq_false_iff] at hdebug
    rw [Expr.size, Expr.meaning]
    obtain ⟨js, ks, i, hjs, hks, hi, rfl⟩ := Expr.of_binary h
    have hone := size_operator hi
    obtain ⟨b, hb, rfl⟩ := ofSpelling?_of_binary hi
    rw [hb, ← bind_assoc]
    have hoperands := (placed_append hplaced).1
    have hsize : Code.size (js ++ ks) = left.size + right.size := by
      rw [size_append, Expr.size_instrs hjs, Expr.size_instrs hks]
    have hboth : Goes setup t (fun _ => a + (left.size + right.size)) s
        ((left.meaning >>= fun _ => right.meaning).perform setup.maxStack w) := by
      refine (Expr.goes hconstants left hjs (placed_append hoperands).1 hdebug.1 hat hmatches).bind
        fun _ w' s' hat' hmatches' => ?_
      have hplaced' := (placed_append hoperands).2
      rw [Expr.size_instrs hjs] at hplaced'
      have hright := Expr.goes hconstants right hks hplaced' hdebug.2 hat' hmatches'
      rw [Nat.add_assoc] at hright
      exact hright
    have hall := goes_snoc (simulates_binary b) hplaced hsize hboth
    rw [hone] at hall
    exact hall
  | .call pos name args, is, a, w, s, h, hplaced, hdebug, hat, hmatches => by
    rw [Expr.instrs?] at h
    rw [Expr.callsDebug, Bool.or_eq_false_iff] at hdebug
    rw [Expr.size, Expr.meaning]
    obtain ⟨b, hb, h⟩ := Option.bind_eq_some_iff.1 h
    split at h
    · obtain ⟨js, hjs, h⟩ := Option.bind_eq_some_iff.1 h
      cases h
      rw [hb]
      have hargs :=
        Expr.goesList hconstants args hjs (placed_append hplaced).1 hdebug.2 hat hmatches
      exact goes_snoc (simulates_builtin hconstants (ne_debug_of_ofName? hb hdebug.1)) hplaced
        (Expr.size_instrsList hjs) hargs
    · cases h
  | .misplaced kind, is, a, w, s, h, hplaced, hdebug, hat, hmatches => by
    rw [Expr.instrs?] at h
    cases h

/-- The code of expressions one after the other does what they mean. -/
theorem Expr.goesList (hconstants : setup.image.constants = t.constants) :
    ∀ (es : List Expr) {is : List Instr} {a : Nat} {w : World} {s : State},
    Expr.instrsList? t es = some is → Placed setup.image.code a is →
    Expr.listCallsDebug es = false → At setup a s → Matches t w s →
    Goes setup t (fun _ => a + Expr.sizeList es) s
      ((Expr.meaningList es).perform setup.maxStack w)
  | [], is, a, w, s, h, hplaced, hdebug, hat, hmatches => by
    rw [Expr.sizeList, Expr.meaningList]
    exact .ok (.refl s) hat hmatches
  | e :: es, is, a, w, s, h, hplaced, hdebug, hat, hmatches => by
    rw [Expr.listCallsDebug, Bool.or_eq_false_iff] at hdebug
    rw [Expr.sizeList, Expr.meaningList]
    obtain ⟨js, ks, hjs, hks, rfl⟩ := Expr.of_cons h
    obtain ⟨hfirst, hothers⟩ := placed_append hplaced
    refine (Expr.goes hconstants e hjs hfirst hdebug.1 hat hmatches).bind
      fun _ w' s' hat' hmatches' => ?_
    rw [Expr.size_instrs hjs] at hothers
    have hrest := Expr.goesList hconstants es hks hothers hdebug.2 hat' hmatches'
    rw [Nat.add_assoc] at hrest
    exact hrest

end

/-! ## Statements -/

/-- The machine gets to an address without doing anything. -/
def Skips (setup : Setup) (t : Tables) (start stop : Nat) : Prop :=
  ∀ w s, At setup start s → Matches t w s →
    ∃ n s', Steps setup n s s' ∧ At setup stop s' ∧ Matches t w s'

/-- A statement may be left later if nothing happens in between. -/
theorem arrives_of_skips {fuel mid stop : Nat} {loopEnd : Option Nat} {s : State}
    {r : Except Fault Flow × World} (h : Arrives setup t fuel mid loopEnd s r)
    (hskips : Skips setup t mid stop) : Arrives setup t fuel stop loopEnd s r := by
  cases h with
  | next hsteps hat hmatches =>
    obtain ⟨n, s', hmore, hat', hmatches'⟩ := hskips _ _ hat hmatches
    exact .next (hsteps.trans hmore) hat' hmatches'
  | left hend hsteps hat hmatches => exact .left hend hsteps hat hmatches
  | ended hsteps hhalted hresult houtput => exact .ended hsteps hhalted hresult houtput
  | unfinished hfuel hsteps hrunning houtput =>
    exact .unfinished hfuel hsteps hrunning houtput
  | failed hcrash => exact .failed hcrash

/-- A jump to an address skips to it. -/
theorem skips_jump {a stop : Nat} {i : Instr} {is : List Instr} (hi : jumpTo? stop = some i)
    (hplaced : Placed setup.image.code a (i :: is)) (hstop : stop ≤ setup.image.code.length) :
    Skips setup t a stop := by
  obtain ⟨b, hb, rfl⟩ := Option.map_eq_some_iff.1 hi
  have htarget : b.toNat = stop := toNat_of_byte? hb
  intro w s hat hmatches
  have hjump := steps_jump hat hmatches (fetch?_of_placed hplaced) (by rw [htarget]; exact hstop)
  rw [htarget] at hjump
  exact ⟨1, hjump⟩

/-- **The turns of a loop.**  Behind the block stands a jump to its beginning, so the
machine makes a step at least in every turn. -/
theorem arrives_turns {block : Meaning Flow} {fuel base mid stop : Nat} {loopEnd : Option Nat}
    (hblock : ∀ w s, At setup base s → Matches t w s →
      Arrives setup t fuel mid (some stop) s (block.perform setup.maxStack w))
    {back : Instr} (hback : jumpTo? base = some back)
    (hplaced : Placed setup.image.code mid [back]) (hbase : base < setup.image.code.length)
    (n : Nat) (hn : n ≤ fuel) : ∀ w s, At setup base s → Matches t w s →
      Arrives setup t n stop loopEnd s ((block.turns n).perform setup.maxStack w) := by
  obtain ⟨b, hb, rfl⟩ := Option.map_eq_some_iff.1 hback
  have htarget : b.toNat = base := toNat_of_byte? hb
  induction n with
  | zero =>
    intro w s hat hmatches
    exact .unfinished (Nat.le_refl 0) (.refl s) (hat.running hbase) hmatches.output
  | succ n ih =>
    intro w s hat hmatches
    have hturn := hblock w s hat hmatches
    rw [Meaning.turns, Meaning.perform_bind]
    generalize block.perform setup.maxStack w = r at hturn ⊢
    cases hturn with
    | @next k w' s' hsteps hat' hmatches' =>
      obtain ⟨s'', hjump, hat'', hmatches''⟩ := steps_jump hat' hmatches'
        (fetch?_of_placed hplaced) (by rw [htarget]; exact Nat.le_of_lt hbase)
      rw [htarget] at hat''
      have hrest := ih (Nat.le_of_succ_le hn) w' s'' hat'' hmatches''
      exact hrest.after (hsteps.trans hjump) (by omega)
    | left hend hsteps hat' hmatches' =>
      cases hend
      exact .next hsteps hat' hmatches'
    | ended hsteps hhalted hresult houtput => exact .ended hsteps hhalted hresult houtput
    | unfinished hfuel hsteps hrunning houtput =>
      exact .unfinished (Nat.le_trans hn hfuel) hsteps hrunning houtput
    | failed hcrash => exact .failed hcrash

/-- The exit of a block leads to the end of its conditional. -/
theorem Chain.skips {rest : Chain} {loopEnd : Option Nat} {finish base : Nat} {is : List Instr}
    (h : rest.instrs? t loopEnd finish base = some is)
    (hplaced : Placed setup.image.code base is) (hfinish : base + rest.size = finish) :
    Skips setup t base finish := by
  have hstop : finish ≤ setup.image.code.length := by
    rw [← hfinish, ← (Chain.laidOut rest h).1.size_eq]
    exact add_size_le_of_placed hplaced
  cases rest with
  | done =>
    intro w s hat hmatches
    rw [Chain.size] at hfinish
    exact ⟨0, s, .refl s, hfinish ▸ hat, hmatches⟩
  | otherwise body =>
    obtain ⟨exit, block, hexit, -, rfl⟩ := Chain.of_otherwise h
    exact skips_jump hexit hplaced hstop
  | elseIf cond body rest =>
    obtain ⟨exit, test, branch, block, others, hexit, -, -, -, -, rfl⟩ := Chain.of_elseIf h
    exact skips_jump hexit hplaced hstop

/-- A test, its block and what follows the block, given what is known of the block and
of what follows it. -/
theorem arrives_clause (hconstants : setup.image.constants = t.constants) {fuel a finish : Nat}
    {loopEnd : Option Nat} {cond : Expr} {body : List Stmt} {rest : Chain}
    {test block others : List Instr} {branch : Instr} (htest : cond.instrs? t = some test)
    (hbranch : branchTo? (a + cond.size + 2 + Stmt.sizeList body + rest.entry) = some branch)
    (hblock : Stmt.instrsList? t loopEnd (a + cond.size + 2) body = some block)
    (hothers : rest.instrs? t loopEnd finish (a + cond.size + 2 + Stmt.sizeList body) =
      some others)
    (hplaced : Placed setup.image.code a (test ++ [branch] ++ block ++ others))
    (hfinish : a + (cond.size + 2 + Stmt.sizeList body + rest.size) = finish)
    (hdebug : cond.callsDebug = false)
    (hbody : Placed setup.image.code (a + cond.size + 2) block → ∀ w st,
      At setup (a + cond.size + 2) st → Matches t w st →
      Arrives setup t fuel (a + cond.size + 2 + Stmt.sizeList body) loopEnd st
        ((Stmt.meaningList fuel body).perform setup.maxStack w))
    (hrest : Placed setup.image.code (a + cond.size + 2 + Stmt.sizeList body) others → ∀ w st,
      At setup (a + cond.size + 2 + Stmt.sizeList body + rest.entry) st → Matches t w st →
      Arrives setup t fuel finish loopEnd st ((rest.meaning fuel).perform setup.maxStack w))
    {w : World} {st : State} (hat : At setup a st) (hmatches : Matches t w st) :
    Arrives setup t fuel finish loopEnd st ((do
      cond.meaning
      if ← Meaning.popBool then Stmt.meaningList fuel body
      else rest.meaning fuel).perform setup.maxStack w) := by
  obtain ⟨b, hb, rfl⟩ := Option.map_eq_some_iff.1 hbranch
  have htarget := toNat_of_byte? hb
  obtain ⟨hplacedTest, hplacedBranch, hplacedBody, hplacedRest⟩ :=
    placed_clause htest rfl hblock hplaced
  have hreach : b.toNat ≤ setup.image.code.length := by
    rw [htarget]
    exact Nat.le_trans (le_of_starts (Chain.laidOut rest hothers).2)
      (add_size_le_of_placed hplacedRest)
  refine (Expr.goes hconstants cond htest hplacedTest hdebug hat hmatches).bind_arrives
    fun _ w' s' hat' hmatches' => ?_
  refine (goes_branch hat' hmatches' (fetch?_of_placed hplacedBranch) hreach).bind_arrives
    fun c w'' s'' hat'' hmatches'' => ?_
  cases c with
  | true =>
    exact arrives_of_skips (hbody hplacedBody w'' s'' hat'' hmatches'')
      (Chain.skips hothers hplacedRest (by omega))
  | false =>
    rw [htarget] at hat''
    exact hrest hplacedRest w'' s'' hat'' hmatches''

mutual

/-- **The code of a statement does what it means.** -/
theorem Stmt.arrives (hconstants : setup.image.constants = t.constants) (fuel : Nat) :
    ∀ (s : Stmt) {loopEnd : Option Nat} {is : List Instr} {a : Nat} {w : World} {st : State},
    s.instrs? t loopEnd a = some is → Placed setup.image.code a is →
    (∀ e, loopEnd = some e → e ≤ setup.image.code.length) → s.callsDebug = false →
    At setup a st → Matches t w st →
    Arrives setup t fuel (a + s.size) loopEnd st ((s.meaning fuel).perform setup.maxStack w)
  | .exprStmt pos e, loopEnd, is, a, w, st, h, hplaced, hend, hdebug, hat, hmatches => by
    rw [Stmt.instrs?] at h
    rw [Stmt.callsDebug] at hdebug
    rw [Stmt.size, Stmt.meaning]
    exact (Expr.goes hconstants e h hplaced hdebug hat hmatches).bind_arrives
      fun _ w' st' hat' hmatches' => .next (.refl st') hat' hmatches'
  | .letDecl pos name value, loopEnd, is, a, w, st, h, hplaced, hend, hdebug, hat, hmatches
  | .assign pos name value, loopEnd, is, a, w, st, h, hplaced, hend, hdebug, hat, hmatches => by
    rw [Stmt.instrs?] at h
    rw [Stmt.callsDebug] at hdebug
    rw [Stmt.size, Stmt.meaning]
    obtain ⟨js, r, hjs, hr, rfl⟩ := Stmt.of_store h
    have hstore : Simulates setup t Same (do Meaning.assign name (← Meaning.pop))
        (execute BuiltinTable.standard (.storeRegister r)) :=
      simulates_pop.bind fun d v hv => simulates_store (Tables.idxOf?_of_register? hr) hv
    have hvalue := Expr.goes hconstants value hjs (placed_append hplaced).1 hdebug hat hmatches
    have hboth := goes_snoc hstore hplaced (Expr.size_instrs hjs) hvalue
    have hall : Arrives setup t fuel (a + (value.size + 2)) loopEnd st
        (((value.meaning >>= fun _ => Meaning.pop >>= Meaning.assign name) >>=
          fun _ => pure .next).perform setup.maxStack w) :=
      hboth.bind_arrives fun _ w' st' hat' hmatches' => .next (.refl st') hat' hmatches'
    simpa only [bind_assoc] using hall
  | .returning pos none, loopEnd, is, a, w, st, h, hplaced, hend, hdebug, hat, hmatches => by
    rw [Stmt.instrs?] at h
    cases h
    rw [Stmt.size, Stmt.meaning]
    exact arrives_ret hat hmatches (fetch?_of_placed hplaced)
  | .returning pos (some value), loopEnd, is, a, w, st, h, hplaced, hend, hdebug, hat,
      hmatches => by
    rw [Stmt.instrs?] at h
    rw [Stmt.callsDebug] at hdebug
    rw [Stmt.size, Stmt.meaning]
    obtain ⟨js, hjs, h⟩ := Option.bind_eq_some_iff.1 h
    cases h
    obtain ⟨hvalue, hret⟩ := placed_append hplaced
    rw [Expr.size_instrs hjs] at hret
    exact (Expr.goes hconstants value hjs hvalue hdebug hat hmatches).bind_arrives
      fun _ w' st' hat' hmatches' => arrives_ret hat' hmatches' (fetch?_of_placed hret)
  | .breaking pos, loopEnd, is, a, w, st, h, hplaced, hend, hdebug, hat, hmatches => by
    rw [Stmt.meaning]
    obtain ⟨e, i, he, hi, rfl⟩ := Stmt.of_breaking h
    obtain ⟨n, st', hsteps, hat', hmatches'⟩ := skips_jump hi hplaced (hend e he) w st hat hmatches
    exact .left he hsteps hat' hmatches'
  | .conditional pos cond body rest, loopEnd, is, a, w, st, h, hplaced, hend, hdebug, hat,
      hmatches => by
    simp only [Stmt.callsDebug, Bool.or_eq_false_iff] at hdebug
    rw [Stmt.size, Stmt.meaning]
    obtain ⟨test, branch, block, others, htest, hbranch, hblock, hothers, rfl⟩ :=
      Stmt.of_conditional h
    have hfinish : a + cond.size + 2 + Stmt.sizeList body + rest.size =
        a + (cond.size + 2 + Stmt.sizeList body + rest.size) := by omega
    rw [hfinish] at hothers
    exact arrives_clause hconstants htest hbranch hblock hothers hplaced rfl hdebug.1.1
      (fun hbody w' st' => Stmt.arrivesList hconstants fuel body hblock hbody hend hdebug.1.2)
      (fun hrest w' st' => Chain.arrives hconstants fuel rest hothers hrest hfinish hend hdebug.2)
      hat hmatches
  | .loop pos body, loopEnd, is, a, w, st, h, hplaced, hend, hdebug, hat, hmatches => by
    rw [Stmt.callsDebug] at hdebug
    rw [Stmt.size, Stmt.meaning]
    obtain ⟨block, back, hblock, hback, rfl⟩ := Stmt.of_loop h
    obtain ⟨hbody, hlast⟩ := placed_append hplaced
    rw [(Stmt.laidOutList body hblock).size_eq] at hlast
    have hstop : a + Stmt.sizeList body + 2 ≤ setup.image.code.length := by
      obtain ⟨b, -, rfl⟩ := Option.map_eq_some_iff.1 hback
      exact add_size_le_of_placed hlast
    have hturn : ∀ w' st', At setup a st' → Matches t w' st' →
        Arrives setup t fuel (a + Stmt.sizeList body) (some (a + Stmt.sizeList body + 2)) st'
          ((Stmt.meaningList fuel body).perform setup.maxStack w') := by
      intro w' st' hat' hmatches'
      refine Stmt.arrivesList hconstants fuel body hblock hbody ?_ hdebug hat' hmatches'
      intro e he
      cases he
      exact hstop
    exact arrives_turns hturn hback hlast (by omega) fuel (Nat.le_refl fuel) w st hat hmatches
  | .fnDecl .., loopEnd, is, a, w, st, h, hplaced, hend, hdebug, hat, hmatches
  | .misplaced kind, loopEnd, is, a, w, st, h, hplaced, hend, hdebug, hat, hmatches => by
    rw [Stmt.instrs?] at h
    cases h

/-- The code of a block does what it means. -/
theorem Stmt.arrivesList (hconstants : setup.image.constants = t.constants) (fuel : Nat) :
    ∀ (ss : List Stmt) {loopEnd : Option Nat} {is : List Instr} {a : Nat} {w : World}
      {st : State},
    Stmt.instrsList? t loopEnd a ss = some is → Placed setup.image.code a is →
    (∀ e, loopEnd = some e → e ≤ setup.image.code.length) → Stmt.listCallsDebug ss = false →
    At setup a st → Matches t w st →
    Arrives setup t fuel (a + Stmt.sizeList ss) loopEnd st
      ((Stmt.meaningList fuel ss).perform setup.maxStack w)
  | [], loopEnd, is, a, w, st, h, hplaced, hend, hdebug, hat, hmatches => by
    rw [Stmt.sizeList, Stmt.meaningList]
    exact .next (.refl st) hat hmatches
  | s :: ss, loopEnd, is, a, w, st, h, hplaced, hend, hdebug, hat, hmatches => by
    rw [Stmt.listCallsDebug, Bool.or_eq_false_iff] at hdebug
    rw [Stmt.sizeList, Stmt.meaningList]
    obtain ⟨js, ks, hjs, hks, rfl⟩ := Stmt.of_cons h
    obtain ⟨hfirst, hothers⟩ := placed_append hplaced
    rw [(Stmt.laidOut s hjs).size_eq] at hothers
    refine (Stmt.arrives hconstants fuel s hjs hfirst hend hdebug.1 hat hmatches).bind
      fun w' st' hat' hmatches' => ?_
    have hrest := Stmt.arrivesList hconstants fuel ss hks hothers hend hdebug.2 hat' hmatches'
    rw [Nat.add_assoc] at hrest
    exact hrest

/-- The code of a chain does what it means, if it is entered from a failed test. -/
theorem Chain.arrives (hconstants : setup.image.constants = t.constants) (fuel : Nat) :
    ∀ (rest : Chain) {loopEnd : Option Nat} {is : List Instr} {finish a : Nat} {w : World}
      {st : State},
    rest.instrs? t loopEnd finish a = some is → Placed setup.image.code a is →
    a + rest.size = finish → (∀ e, loopEnd = some e → e ≤ setup.image.code.length) →
    rest.callsDebug = false → At setup (a + rest.entry) st → Matches t w st →
    Arrives setup t fuel finish loopEnd st ((rest.meaning fuel).perform setup.maxStack w)
  | .done, loopEnd, is, finish, a, w, st, h, hplaced, hfinish, hend, hdebug, hat, hmatches => by
    rw [Chain.size] at hfinish
    rw [Chain.entry, hfinish] at hat
    rw [Chain.meaning]
    exact .next (.refl st) hat hmatches
  | .otherwise body, loopEnd, is, finish, a, w, st, h, hplaced, hfinish, hend, hdebug, hat,
      hmatches => by
    rw [Chain.callsDebug] at hdebug
    rw [Chain.size, ← Nat.add_assoc] at hfinish
    rw [Chain.meaning, ← hfinish]
    obtain ⟨exit, block, hexit, hblock, rfl⟩ := Chain.of_otherwise h
    have hbody := (placed_append hplaced).2
    rw [size_jumpTo hexit] at hbody
    exact Stmt.arrivesList hconstants fuel body hblock hbody hend hdebug hat hmatches
  | .elseIf cond body rest, loopEnd, is, finish, a, w, st, h, hplaced, hfinish, hend, hdebug,
      hat, hmatches => by
    simp only [Chain.callsDebug, Bool.or_eq_false_iff] at hdebug
    rw [Chain.size] at hfinish
    rw [Chain.meaning]
    obtain ⟨exit, test, branch, block, others, hexit, htest, hbranch, hblock, hothers, rfl⟩ :=
      Chain.of_elseIf h
    have hclause : Placed setup.image.code a ([exit] ++ (test ++ [branch] ++ block ++ others)) := by
      simpa only [List.append_assoc] using hplaced
    have hplaced' := (placed_append hclause).2
    rw [size_jumpTo hexit] at hplaced'
    rw [← Nat.add_assoc] at hfinish
    exact arrives_clause hconstants htest hbranch hblock hothers hplaced' hfinish hdebug.1.1
      (fun hbody w' st' => Stmt.arrivesList hconstants fuel body hblock hbody hend hdebug.1.2)
      (fun hrest w' st' =>
        Chain.arrives hconstants fuel rest hothers hrest (by omega) hend hdebug.2)
      hat hmatches

end

end Octet
