import Mathlib.Data.List.Forall2
import PropExport.Proofs.Formula.Grammar
import PropExport.Proofs.Numeral

/-!
# Reading what was printed

The text of a formula whose function names are words is read back with all sums and conjunctions
grouped to the left, whatever way they were nested. The text is cut into the tokens of its summands
and equations, and these are read one by one.
-/

namespace PropExport

namespace Token

/-- Whether a word that stands before a text ends there. -/
def EndsWord (rest : List Char) : Prop :=
  ∀ c, rest.head? = some c → c = ' ' ∨ c = '(' ∨ c = ')' ∨ c = ','

private theorem endsWord_cons {c : Char} (h : c = ' ' ∨ c = '(' ∨ c = ')' ∨ c = ',')
    (rest : List Char) : EndsWord (c :: rest) := by
  intro d hd
  rwa [← Option.some.inj hd]

private theorem scan_of_endsWord {rest : List Char} (h : EndsWord rest) (current : List Char) :
    scan current rest = ended current ++ scan [] rest := by
  cases rest with
  | nil => simp [scan, ended]
  | cons c cs =>
    have hnil : ended [] = [] := rfl
    rcases h c rfl with rfl | rfl | rfl | rfl <;> simp [scan, hnil]

private theorem scan_append {cs : List Char} (h : ∀ c ∈ cs, c ≠ ' ' ∧ c ≠ '(' ∧ c ≠ ')' ∧ c ≠ ',')
    (current rest : List Char) : scan current (cs ++ rest) = scan (cs.reverse ++ current) rest := by
  induction cs generalizing current with
  | nil => rfl
  | cons c cs ih =>
    obtain ⟨hblank, hopening, hclosing, hcomma⟩ := h c (by simp)
    rw [List.cons_append, scan, if_neg hblank, if_neg hopening, if_neg hclosing, if_neg hcomma,
      ih (fun d hd => h d (List.mem_cons_of_mem c hd))]
    simp

/-- A word is one token. -/
theorem scan_word {text : String} (h : IsWord text) {rest : List Char} (hrest : EndsWord rest) :
    scan [] (text.toList ++ rest) = .word text :: scan [] rest := by
  have hne : text.toList ≠ [] := by simpa using h.1
  rw [scan_append h.2, scan_of_endsWord hrest, ended]
  simp [hne]

private theorem scan_blank (rest : List Char) : scan [] (' ' :: rest) = scan [] rest := by
  rw [scan, if_pos rfl]
  rfl

/-- An operator with blanks around it is one token. -/
theorem scan_operator {text : String} (h : IsWord text) (rest : List Char) :
    scan [] (' ' :: (text.toList ++ ' ' :: rest)) = .word text :: scan [] rest := by
  rw [scan_blank, scan_word h (endsWord_cons (.inl rfl) rest), scan_blank]

/-- Tokens with a separator between neighbours. -/
def join (separator : Token) : List (List Token) → List Token
  | [] => []
  | [tokens] => tokens
  | tokens :: more => tokens ++ separator :: join separator more

/-- A separator stands between the first tokens and the others. -/
theorem join_cons {separator : Token} {tokens : List Token} {more : List (List Token)}
    (h : more ≠ []) :
    join separator (tokens :: more) = tokens ++ separator :: join separator more := by
  cases more with
  | nil => exact absurd rfl h
  | cons next more => rfl

private theorem join_append {separator : Token} {left right : List (List Token)} (hleft : left ≠ [])
    (hright : right ≠ []) :
    join separator (left ++ right) = join separator left ++ separator :: join separator right := by
  induction left with
  | nil => exact absurd rfl hleft
  | cons tokens more ih =>
    by_cases hmore : more = []
    · rw [hmore, List.singleton_append, join_cons hright]
      rfl
    · rw [List.cons_append, join_cons (by simp [hmore]), ih hmore, join_cons hmore,
        List.append_assoc, List.cons_append]

private theorem length_le_length_join (separator : Token) (rows : List (List Token)) :
    rows.length ≤ (join separator rows).length + 1 := by
  induction rows with
  | nil => simp
  | cons tokens more ih =>
    by_cases hmore : more = []
    · simp [hmore]
    · rw [join_cons hmore]
      simp only [List.length_cons, List.length_append]
      omega

private theorem length_le_length_join_of_mem (separator : Token) {rows : List (List Token)}
    {tokens : List Token} (h : tokens ∈ rows) : tokens.length ≤ (join separator rows).length := by
  induction rows with
  | nil => simp at h
  | cons first more ih =>
    by_cases hmore : more = []
    · obtain rfl : tokens = first := by simpa [hmore] using h
      simp [hmore, join]
    · rw [join_cons hmore]
      simp only [List.length_append, List.length_cons]
      rcases List.mem_cons.mp h with rfl | h
      · omega
      · have := ih h
        omega

/-- A row is read item by item, if each item is read where it ends: before a separator and before
what follows the row. -/
theorem readRow_join {α : Type} {separator : Token} {item : List Token → Option (α × List Token)}
    {stops : List Token → Prop} (hseparator : ∀ rest, stops (separator :: rest))
    {rows : List (List Token)} {xs : List α}
    (hitems : List.Forall₂
      (fun tokens x => ∀ rest, stops rest → item (tokens ++ rest) = some (x, rest)) rows xs)
    (hrows : rows ≠ []) {rest : List Token} (hrest : stops rest)
    (hend : rest.head? ≠ some separator) {n : Nat} (hn : rows.length ≤ n) :
    readRow separator item n (join separator rows ++ rest) = some (xs, rest) := by
  induction hitems generalizing n with
  | nil => exact absurd rfl hrows
  | @cons tokens x more xs hitem hmore ih =>
    obtain _ | n := n
    · simp at hn
    by_cases hlast : more = []
    · subst hlast
      cases hmore
      rw [readRow, join, hitem rest hrest]
      cases rest with
      | nil => rfl
      | cons token rest =>
        have hne : token ≠ separator := fun heq => hend (congrArg some heq)
        simp [hne]
    · have hn : more.length ≤ n := by simpa using hn
      rw [join_cons hlast, List.append_assoc, List.cons_append, readRow,
        hitem _ (hseparator _)]
      simp [ih hlast hn]

end Token

namespace Term

/-- To show something of every term, show it of a call whenever it holds of the arguments. -/
theorem induct {motive : Term → Prop} (num : ∀ n, motive (.num n))
    (add : ∀ l r, motive l → motive r → motive (.add l r))
    (app : ∀ fn args, (∀ t ∈ args, motive t) → motive (.app fn args)) : (t : Term) → motive t
  | .num n => num n
  | .add l r => add l r (induct num add app l) (induct num add app r)
  | .app fn args => app fn args fun t _ => induct num add app t

mutual

/-- The names of the functions that a term calls. -/
def names : Term → List String
  | .num _ => []
  | .add l r => l.names ++ r.names
  | .app fn args => fn :: namesAll args

/-- The names of the functions that some terms call. -/
def namesAll : List Term → List String
  | [] => []
  | t :: ts => t.names ++ namesAll ts

end

/-- The names in arguments are those of each argument in order. -/
theorem namesAll_eq (args : List Term) : namesAll args = args.flatMap names := by
  induction args with
  | nil => rfl
  | cons t ts ih => rw [namesAll, ih, List.flatMap_cons]

mutual

/-- The terms that are added up in a term, each with the sums in its arguments grouped to the
left. -/
def summands : Term → List Term
  | .num n => [.num n]
  | .add l r => l.summands ++ r.summands
  | .app fn args => [.app fn (regroupAll args)]

/-- Some terms with all sums grouped to the left. -/
def regroupAll : List Term → List Term
  | [] => []
  | t :: ts => sum t.summands :: regroupAll ts

end

/-- A term with all sums grouped to the left. -/
def regroup (t : Term) : Term :=
  sum t.summands

/-- Arguments are regrouped one by one. -/
theorem regroupAll_eq (args : List Term) : regroupAll args = args.map regroup := by
  induction args with
  | nil => rfl
  | cons t ts ih => rw [regroupAll, ih, List.map_cons, regroup]

mutual

/-- The tokens of each of the terms that are added up in a term. -/
def summandTokens : Term → List (List Token)
  | .num n => [[.word (toString n)]]
  | .add l r => l.summandTokens ++ r.summandTokens
  | .app fn args => [.word fn :: .opening :: (Token.join .comma (tokensAll args) ++ [.closing])]

/-- The tokens of some terms. -/
def tokensAll : List Term → List (List Token)
  | [] => []
  | t :: ts => Token.join .plus t.summandTokens :: tokensAll ts

end

/-- The tokens of a term. -/
def tokens (t : Term) : List Token :=
  Token.join .plus t.summandTokens

private theorem tokensAll_eq (args : List Term) : tokensAll args = args.map tokens := by
  induction args with
  | nil => rfl
  | cons t ts ih => rw [tokensAll, ih, List.map_cons, tokens]

/-- Arguments are printed one by one. -/
theorem printAll_eq (args : List Term) : printAll args = args.map print := by
  induction args with
  | nil => rfl
  | cons t ts ih => rw [printAll, ih, List.map_cons]

private theorem summandTokens_ne_nil (t : Term) : t.summandTokens ≠ [] := by
  induction t using induct with
  | num n => simp [summandTokens]
  | add l r ihl ihr => simp [summandTokens, ihl]
  | app fn args ih => simp [summandTokens]

private theorem tokens_add (l r : Term) : (add l r).tokens = l.tokens ++ .plus :: r.tokens := by
  rw [tokens, summandTokens, Token.join_append l.summandTokens_ne_nil r.summandTokens_ne_nil]
  rfl

private theorem tokens_app (fn : String) (args : List Term) :
    (app fn args).tokens =
      .word fn :: .opening :: (Token.join .comma (args.map tokens) ++ [.closing]) := by
  rw [tokens, summandTokens, tokensAll_eq]
  rfl

private theorem isWord_toString (n : Nat) : Token.IsWord (toString n) := by
  obtain ⟨first, rest, htext, _⟩ := Numeral.exists_toString_eq n
  constructor
  · intro hempty
    rw [hempty] at htext
    cases htext
  · intro c hc
    have hdigit := Numeral.isDigit_of_mem_toString hc
    refine ⟨?_, ?_, ?_, ?_⟩ <;> rintro rfl <;> simp at hdigit

private theorem numeral?_toString (n : Nat) : numeral? (toString n) = some n := by
  have hdigits : (toString n).toList.all Char.isDigit = true :=
    List.all_eq_true.mpr fun c => Numeral.isDigit_of_mem_toString
  rw [numeral?, if_pos ⟨(isWord_toString n).1, hdigits⟩, Numeral.ofDigits_toString]

/-- Scanning gives the tokens of a term and goes on after them. -/
def Scans (t : Term) : Prop :=
  ∀ rest, Token.EndsWord rest →
    Token.scan [] (t.print.toList ++ rest) = t.tokens ++ Token.scan [] rest

private theorem scan_separated {args : List Term} (h : ∀ t ∈ args, t.Scans) {rest : List Char}
    (hrest : Token.EndsWord rest) :
    Token.scan [] ((Text.separated ", " (args.map print)).toList ++ rest) =
      Token.join .comma (args.map tokens) ++ Token.scan [] rest := by
  induction args with
  | nil => rfl
  | cons t ts ih =>
    have ht := h t (by simp)
    cases ts with
    | nil => exact ht rest hrest
    | cons u ts =>
      have hts := ih fun v hv => h v (List.mem_cons_of_mem t hv)
      have hcomma (cs : List Char) :
          Token.scan [] (',' :: ' ' :: cs) = .comma :: Token.scan [] cs := by
        rw [Token.scan, if_neg (by decide), if_neg (by decide), if_neg (by decide), if_pos rfl,
          Token.scan_blank]
        rfl
      have htext : (Text.separated ", " ((t :: u :: ts).map print)).toList ++ rest =
          t.print.toList ++ ',' :: ' ' ::
            ((Text.separated ", " ((u :: ts).map print)).toList ++ rest) := by
        simp [Text.separated]
      rw [htext, ht _ (Token.endsWord_cons (by simp) _), hcomma, hts]
      simp [Token.join]

/-- The text of a term is cut into its tokens. -/
theorem scans_of_isWord {t : Term} (h : ∀ name ∈ t.names, Token.IsWord name) : t.Scans := by
  induction t using induct with
  | num n => exact fun rest hrest => Token.scan_word (isWord_toString n) hrest
  | add l r ihl ihr =>
    intro rest hrest
    have hl := ihl fun name hname => h name (by simp [names, hname])
    have hr := ihr fun name hname => h name (by simp [names, hname])
    have hplus : Token.IsWord "+" := by decide
    have htext : (add l r).print.toList ++ rest =
        l.print.toList ++ ' ' :: ("+".toList ++ ' ' :: (r.print.toList ++ rest)) := by
      simp [print]
    rw [htext, hl _ (Token.endsWord_cons (by simp) _), Token.scan_operator hplus, hr rest hrest,
      tokens_add, List.append_assoc]
    rfl
  | app fn args ih =>
    intro rest hrest
    have hfn : Token.IsWord fn := h fn (by simp [names])
    have hargs : ∀ t ∈ args, t.Scans := by
      intro t ht
      refine ih t ht fun name hname => h name ?_
      rw [names, namesAll_eq]
      exact List.mem_cons_of_mem fn (List.mem_flatMap.mpr ⟨t, ht, hname⟩)
    have htext : (app fn args).print.toList ++ rest =
        fn.toList ++ '(' :: ((Text.separated ", " (args.map print)).toList ++ ')' :: rest) := by
      simp [print, printAll_eq]
    have hopening (cs : List Char) : Token.scan [] ('(' :: cs) = .opening :: Token.scan [] cs := by
      rw [Token.scan, if_neg (by decide), if_pos rfl]
      rfl
    have hclosing (cs : List Char) : Token.scan [] (')' :: cs) = .closing :: Token.scan [] cs := by
      rw [Token.scan, if_neg (by decide), if_neg (by decide), if_pos rfl]
      rfl
    rw [htext, Token.scan_word hfn (Token.endsWord_cons (by simp) _), hopening,
      scan_separated hargs (Token.endsWord_cons (by simp) _), hclosing, tokens_app]
    simp

/-- The tokens of a term start with a word. -/
theorem exists_tokens_eq (t : Term) : ∃ text more, t.tokens = .word text :: more := by
  induction t using induct with
  | num n => exact ⟨_, _, rfl⟩
  | add l r ihl _ =>
    obtain ⟨text, more, htokens⟩ := ihl
    rw [tokens_add, htokens, List.cons_append]
    exact ⟨_, _, rfl⟩
  | app fn args ih =>
    rw [tokens_app]
    exact ⟨_, _, rfl⟩

/-- Whether a sum that stands before some tokens ends there. -/
def EndsSum (rest : List Token) : Prop :=
  rest.head? ≠ some .opening ∧ rest.head? ≠ some .plus

/-- The terms that are added up in a term are read one by one. -/
def ReadsSummands (t : Term) : Prop :=
  ∀ n, t.tokens.length ≤ n + 1 →
    List.Forall₂ (fun tokens x => ∀ rest, rest.head? ≠ some Token.opening →
      readAtom (read n) (tokens ++ rest) = some (x, rest)) t.summandTokens t.summands

/-- A term whose summands are read one by one is read with its sums grouped to the left. -/
theorem ReadsSummands.read_tokens {t : Term} (h : t.ReadsSummands) {n : Nat}
    (hn : t.tokens.length ≤ n) {rest : List Token} (hrest : EndsSum rest) :
    read n (t.tokens ++ rest) = some (t.regroup, rest) := by
  obtain ⟨text, more, htokens⟩ := t.exists_tokens_eq
  obtain _ | n := n
  · simp [htokens] at hn
  have hseparator (rest : List Token) : (Token.plus :: rest).head? ≠ some .opening := by
    simp [Token.plus]
  have hcount : t.summandTokens.length ≤ (t.tokens ++ rest).length + 1 := by
    have := Token.length_le_length_join .plus t.summandTokens
    rw [List.length_append, tokens]
    omega
  have hrow : Token.readRow .plus (readAtom (read n)) ((t.tokens ++ rest).length + 1)
      (t.tokens ++ rest) = some (t.summands, rest) :=
    Token.readRow_join hseparator (h n hn) t.summandTokens_ne_nil hrest.1 hrest.2 hcount
  rw [read, hrow]
  rfl

/-- A numeral is read if no bracket follows it. -/
theorem readAtom_numeral {argument : List Token → Option (Term × List Token)} {text : String}
    {n : Nat} (h : numeral? text = some n) {rest : List Token}
    (hrest : rest.head? ≠ some .opening) :
    readAtom argument (.word text :: rest) = some (.num n, rest) := by
  cases rest with
  | nil => simp [readAtom, h]
  | cons token rest =>
    cases token with
    | opening => simp at hrest
    | word text => simp [readAtom, h]
    | closing => simp [readAtom, h]
    | comma => simp [readAtom, h]

/-- A call is read if its arguments are. -/
theorem readAtom_app {argument : List Token → Option (Term × List Token)} {args : List Term}
    (h : ∀ t ∈ args, ∀ rest, EndsSum rest →
      argument (t.tokens ++ rest) = some (t.regroup, rest)) (fn : String) (rest : List Token) :
    readAtom argument ((app fn args).tokens ++ rest) = some (.app fn (args.map regroup), rest) := by
  rw [tokens_app]
  cases args with
  | nil => rfl
  | cons t ts =>
    have hitems : List.Forall₂ (fun tokens x => ∀ rest, EndsSum rest →
        argument (tokens ++ rest) = some (x, rest))
        ((t :: ts).map tokens) ((t :: ts).map regroup) := by
      rw [List.forall₂_map_left_iff, List.forall₂_map_right_iff, List.forall₂_same]
      exact h
    have hcomma (rest : List Token) : EndsSum (.comma :: rest) := by simp [EndsSum, Token.plus]
    have hclosing : EndsSum (.closing :: rest) := by simp [EndsSum, Token.plus]
    have hcount : ((t :: ts).map tokens).length ≤
        (Token.join .comma ((t :: ts).map tokens) ++ .closing :: rest).length + 1 := by
      have := Token.length_le_length_join .comma ((t :: ts).map tokens)
      rw [List.length_append]
      omega
    have hrow := Token.readRow_join hcomma hitems (by simp) hclosing (by simp) hcount
    -- the first argument starts with a word, so the brackets are not empty
    obtain ⟨text, more, htokens⟩ := t.exists_tokens_eq
    obtain ⟨more', hjoin⟩ : ∃ more',
        Token.join .comma ((t :: ts).map tokens) = .word text :: more' := by
      cases ts with
      | nil => exact ⟨more, htokens⟩
      | cons u ts =>
        rw [List.map_cons, Token.join_cons (by simp), htokens]
        exact ⟨_, rfl⟩
    rw [hjoin] at hrow ⊢
    simp only [List.cons_append, List.append_assoc, List.nil_append] at hrow ⊢
    rw [readAtom, hrow]
    simp

/-- Every term is read summand by summand. -/
theorem readsSummands (t : Term) : t.ReadsSummands := by
  induction t using induct with
  | num n =>
    intro m _
    exact .cons (fun rest hrest => readAtom_numeral (numeral?_toString n) hrest) .nil
  | add l r ihl ihr =>
    intro m hm
    rw [tokens_add, List.length_append, List.length_cons] at hm
    exact List.rel_append (ihl m (by omega)) (ihr m (by omega))
  | app fn args ih =>
    intro m hm
    have hargs : ∀ t ∈ args, ∀ rest, EndsSum rest →
        read m (t.tokens ++ rest) = some (t.regroup, rest) := by
      intro t ht rest hrest
      have hlength :=
        Token.length_le_length_join_of_mem .comma (List.mem_map_of_mem (f := tokens) ht)
      rw [tokens_app] at hm
      simp only [List.length_cons, List.length_append] at hm
      exact (ih t ht).read_tokens (by omega) hrest
    rw [summands, regroupAll_eq]
    exact .cons (fun rest _ => readAtom_app hargs fn rest) .nil

end Term

namespace Formula

/-- The names of the functions that a formula calls. -/
def names : Formula → List String
  | .eq l r => l.names ++ r.names
  | .and l r => l.names ++ r.names

/-- The equations in a formula, with all sums grouped to the left. -/
def equations : Formula → List Formula
  | .eq l r => [.eq l.regroup r.regroup]
  | .and l r => l.equations ++ r.equations

/-- A formula with all sums and conjunctions grouped to the left. -/
def regroup (f : Formula) : Formula :=
  conjunction f.equations

/-- The tokens of each of the equations in a formula. -/
def equationTokens : Formula → List (List Token)
  | .eq l r => [l.tokens ++ .equals :: r.tokens]
  | .and l r => l.equationTokens ++ r.equationTokens

/-- The tokens of a formula. -/
def tokens (f : Formula) : List Token :=
  Token.join .both f.equationTokens

private theorem equationTokens_ne_nil (f : Formula) : f.equationTokens ≠ [] := by
  induction f with
  | eq l r => simp [equationTokens]
  | and l r ihl ihr => simp [equationTokens, ihl]

private theorem tokens_and (l r : Formula) : (and l r).tokens = l.tokens ++ .both :: r.tokens := by
  rw [tokens, equationTokens, Token.join_append l.equationTokens_ne_nil r.equationTokens_ne_nil]
  rfl

/-- The text of a formula is cut into its tokens. -/
theorem scan_print {f : Formula} (h : ∀ name ∈ f.names, Token.IsWord name) (rest : List Char)
    (hrest : Token.EndsWord rest) :
    Token.scan [] (f.print.toList ++ rest) = f.tokens ++ Token.scan [] rest := by
  induction f generalizing rest with
  | eq l r =>
    have hl : l.Scans := Term.scans_of_isWord fun name hname => h name (by simp [names, hname])
    have hr : r.Scans := Term.scans_of_isWord fun name hname => h name (by simp [names, hname])
    have hequals : Token.IsWord "==" := by decide
    have htext : (eq l r).print.toList ++ rest =
        l.print.toList ++ ' ' :: ("==".toList ++ ' ' :: (r.print.toList ++ rest)) := by
      simp [print]
    rw [htext, hl _ (Token.endsWord_cons (by simp) _), Token.scan_operator hequals, hr rest hrest]
    simp [tokens, equationTokens, Token.join, Token.equals]
  | and l r ihl ihr =>
    have hl := ihl fun name hname => h name (by simp [names, hname])
    have hr := ihr fun name hname => h name (by simp [names, hname])
    have hboth : Token.IsWord "&&" := by decide
    have htext : (and l r).print.toList ++ rest =
        l.print.toList ++ ' ' :: ("&&".toList ++ ' ' :: (r.print.toList ++ rest)) := by
      simp [print]
    rw [htext, hl _ (Token.endsWord_cons (by simp) _), Token.scan_operator hboth, hr rest hrest,
      tokens_and, List.append_assoc]
    rfl

private theorem readEquation_tokens (l r : Term) {rest : List Token} (hrest : Term.EndsSum rest) :
    readEquation (l.tokens ++ .equals :: r.tokens ++ rest) =
      some (.eq l.regroup r.regroup, rest) := by
  have hequals : Term.EndsSum (.equals :: (r.tokens ++ rest)) := by
    simp [Term.EndsSum, Token.equals, Token.plus]
  have hl : Term.read (l.tokens ++ .equals :: (r.tokens ++ rest)).length
      (l.tokens ++ .equals :: (r.tokens ++ rest)) =
        some (l.regroup, .equals :: (r.tokens ++ rest)) :=
    l.readsSummands.read_tokens (by simp) hequals
  have hr : Term.read (r.tokens ++ rest).length (r.tokens ++ rest) = some (r.regroup, rest) :=
    r.readsSummands.read_tokens (by simp) hrest
  rw [readEquation, List.append_assoc, List.cons_append, hl]
  simp only [if_true, hr, Option.map_some]

/-- The equations in a formula are read one by one. -/
theorem forall₂_readEquation (f : Formula) :
    List.Forall₂ (fun tokens x => ∀ rest, Term.EndsSum rest →
      readEquation (tokens ++ rest) = some (x, rest)) f.equationTokens f.equations := by
  induction f with
  | eq l r => exact .cons (fun rest hrest => readEquation_tokens l r hrest) .nil
  | and l r ihl ihr => exact List.rel_append ihl ihr

/-- Reading what was printed gives the formula with its sums and conjunctions grouped to the
left. -/
theorem read_print {f : Formula} (h : ∀ name ∈ f.names, Token.IsWord name) :
    read f.print = some f.regroup := by
  have htokens : Token.ofText f.print = f.tokens := by
    have hnil : Token.scan [] [] = [] := rfl
    have hscan := scan_print h [] (by simp [Token.EndsWord])
    rwa [hnil, List.append_nil, List.append_nil] at hscan
  have hseparator (rest : List Token) : Term.EndsSum (.both :: rest) := by
    simp [Term.EndsSum, Token.both, Token.plus]
  have hcount : f.equationTokens.length ≤ f.tokens.length + 1 :=
    Token.length_le_length_join .both f.equationTokens
  have hend : Term.EndsSum [] := by simp [Term.EndsSum]
  have hhead : ([] : List Token).head? ≠ some .both := by simp
  have hrow : Token.readRow .both readEquation (f.tokens.length + 1) (f.tokens ++ []) =
      some (f.equations, []) :=
    Token.readRow_join hseparator f.forall₂_readEquation f.equationTokens_ne_nil hend hhead hcount
  rw [List.append_nil] at hrow
  simp only [read, htokens, hrow, regroup]

end Formula

end PropExport
