import Mathlib.Data.List.Nodup
import Snoozer.DecimalLiteral

/-! Command lines with long options: what a command declares, the ways of spelling what is given
to it, and what is relied on of a library that parses them. -/
namespace CommandLine

abbrev Token := String

inductive Kind where
  | flag
  | option (many : Bool)
  | positional
  | last
  deriving DecidableEq, Repr

structure Arg where
  name : String
  kind : Kind
  required : Bool
  deriving DecidableEq, Repr

inductive Item where
  | flag (name : String)
  | option (name : String) (value : Token)
  | positional (value : Token)
  deriving DecidableEq, Repr

/-- What is given to a command; `last` are the tokens after the escape. -/
structure Matches where
  items : List Item
  last : List Token
  deriving DecidableEq, Repr

/-- The token after which nothing is an option. -/
def escape : Token := "--"

def long (name : String) : Token := "--" ++ name

/-- A token that stands for no value. -/
def Hyphenated (value : Token) : Prop := value.toList.head? = some '-' ∧ value ≠ "-"

instance (value : Token) : Decidable (Hyphenated value) := inferInstanceAs (Decidable (_ ∧ _))

def Item.isOf (arg : Arg) : Item → Bool
  | flag name => arg.kind = .flag && arg.name = name
  | option name _ => (arg.kind = .option false || arg.kind = .option true) && arg.name = name
  | positional _ => arg.kind = .positional

def Item.Declared (spec : List Arg) (item : Item) : Prop := ∃ arg ∈ spec, item.isOf arg = true

instance (spec : List Arg) (item : Item) : Decidable (item.Declared spec) :=
  inferInstanceAs (Decidable (∃ arg ∈ spec, item.isOf arg = true))

/-- The value of an option says nothing about which option it is. -/
theorem countP_isOf_option {α : Type} (arg : Arg) (name : String) (f : α → Token)
    (values : List α) :
    (values.map fun value => Item.option name (f value)).countP (Item.isOf arg) =
      if (Item.option name "").isOf arg then values.length else 0 := by
  rw [List.countP_map]
  split
  · next h => exact List.countP_eq_length.mpr fun _ _ => h
  · next h => exact List.countP_eq_zero.mpr fun _ _ => h

/-- How often the argument is given. -/
def Matches.given (m : Matches) (arg : Arg) : ℕ := m.items.countP (Item.isOf arg)

structure Arg.Suits (m : Matches) (arg : Arg) : Prop where
  once : arg.kind ≠ .option true → m.given arg ≤ 1
  given : arg.required = true → arg.kind ≠ .last → 0 < m.given arg
  last : arg.required = true → arg.kind = .last → m.last ≠ []

instance (m : Matches) (arg : Arg) : Decidable (arg.Suits m) :=
  decidable_of_iff ((arg.kind ≠ .option true → m.given arg ≤ 1) ∧
      (arg.required = true → arg.kind ≠ .last → 0 < m.given arg) ∧
      (arg.required = true → arg.kind = .last → m.last ≠ []))
    ⟨fun h => ⟨h.1, h.2.1, h.2.2⟩, fun h => ⟨h.once, h.given, h.last⟩⟩

def HasLast (spec : List Arg) : Prop := ∃ arg ∈ spec, arg.kind = .last

instance (spec : List Arg) : Decidable (HasLast spec) :=
  inferInstanceAs (Decidable (∃ arg ∈ spec, arg.kind = .last))

/-- What is given is what the command declares, as often as it allows. -/
structure Fits (spec : List Arg) (m : Matches) : Prop where
  declared : ∀ item ∈ m.items, item.Declared spec
  suits : ∀ arg ∈ spec, arg.Suits m
  last : m.last ≠ [] → HasLast spec

instance (spec : List Arg) (m : Matches) : Decidable (Fits spec m) :=
  decidable_of_iff ((∀ item ∈ m.items, item.Declared spec) ∧ (∀ arg ∈ spec, arg.Suits m) ∧
      (m.last ≠ [] → HasLast spec))
    ⟨fun h => ⟨h.1, h.2.1, h.2.2⟩, fun h => ⟨h.declared, h.suits, h.last⟩⟩

/-- Names that can be told apart. -/
structure WellNamed (spec : List Arg) : Prop where
  nodup : (spec.map Arg.name).Nodup
  ne_empty : ∀ arg ∈ spec, arg.name ≠ ""
  unassigned : ∀ arg ∈ spec, '=' ∉ arg.name.toList

inductive Spelled : Item → List Token → Prop where
  | flag (name : String) : Spelled (.flag name) [long name]
  | separate (name : String) {value : Token} : ¬ Hyphenated value →
      Spelled (.option name value) [long name, value]
  | joined (name : String) (value : Token) :
      Spelled (.option name value) [long name ++ "=" ++ value]
  | positional {value : Token} : ¬ Hyphenated value → Spelled (.positional value) [value]

inductive SpelledAll : List Item → List Token → Prop where
  | nil : SpelledAll [] []
  | cons {item : Item} {items : List Item} {tokens rest : List Token} :
      Spelled item tokens → SpelledAll items rest → SpelledAll (item :: items) (tokens ++ rest)

/-- The spelling with every value in a token of its own. -/
def Item.tokens : Item → List Token
  | flag name => [long name]
  | option name value => [long name, value]
  | positional value => [value]

def Item.Plain : Item → Prop
  | flag _ => True
  | option _ value | positional value => ¬ Hyphenated value

theorem Item.spelled {item : Item} (h : item.Plain) : Spelled item item.tokens := by
  cases item with
  | flag name => exact .flag name
  | option name value => exact .separate name h
  | positional value => exact .positional h

theorem spelledAll_tokens {items : List Item} (h : ∀ item ∈ items, item.Plain) :
    SpelledAll items (items.flatMap Item.tokens) := by
  induction items with
  | nil => exact .nil
  | cons item items ih =>
    rw [List.forall_mem_cons] at h
    rw [List.flatMap_cons]
    exact .cons (Item.spelled h.1) (ih h.2)

/-- The value stands after the escape. -/
def Escaped (value : Token) (tokens : List Token) : Prop :=
  ∃ before after, tokens = before ++ escape :: after ∧ value ∈ after

theorem Escaped.escape_mem {value token : Token} {init : List Token}
    (h : Escaped value (init ++ [token])) : escape ∈ init := by
  obtain ⟨before, after, heq, hafter⟩ := h
  have hne : after ≠ [] := List.ne_nil_of_mem hafter
  have hsplit : init ++ [token] =
      (before ++ escape :: after.dropLast) ++ [after.getLast hne] := by
    rw [heq, List.append_assoc, List.cons_append, List.dropLast_concat_getLast]
  rw [(List.append_inj' hsplit rfl).1]
  exact List.mem_append_right before List.mem_cons_self

/-- A parsing library. A value in a token of its own does not begin with a hyphen, after an
equals sign and after the escape it is arbitrary. -/
structure Parser where
  parse : List Arg → List Token → Option Matches
  unsigned : ℕ → Token → Option ℕ
  parse_spelled {spec : List Arg} {items : List Item} {tokens : List Token} : WellNamed spec →
    Fits spec ⟨items, []⟩ → SpelledAll items tokens → parse spec tokens = some ⟨items, []⟩
  parse_escaped {spec : List Arg} {items : List Item} {tokens last : List Token} :
    WellNamed spec → Fits spec ⟨items, last⟩ → HasLast spec → SpelledAll items tokens →
    parse spec (tokens ++ escape :: last) = some ⟨items, last⟩
  parse_hyphenated {spec : List Arg} {items : List Item} {tokens rest : List Token}
    {name : String} {value : Token} : WellNamed spec → (∀ item ∈ items, item.Declared spec) →
    SpelledAll items tokens → (Item.option name value).Declared spec → Hyphenated value →
    parse spec (tokens ++ long name :: value :: rest) = none
  positional_escaped {spec : List Arg} {tokens : List Token} {m : Matches} {value : Token} :
    parse spec tokens = some m → .positional value ∈ m.items → Hyphenated value →
    Escaped value tokens
  unsigned_repr {max n : ℕ} : n ≤ max → unsigned max n.repr = some n

namespace Parser

theorem parse_tokens (parser : Parser) {spec : List Arg} {items : List Item}
    (hspec : WellNamed spec) (hfits : Fits spec ⟨items, []⟩) (h : ∀ item ∈ items, item.Plain) :
    parser.parse spec (items.flatMap Item.tokens) = some ⟨items, []⟩ :=
  parser.parse_spelled hspec hfits (spelledAll_tokens h)

theorem parse_tokens_escaped (parser : Parser) {spec : List Arg} {items : List Item}
    {last : List Token} (hspec : WellNamed spec) (hlast : HasLast spec)
    (hfits : Fits spec ⟨items, last⟩) (h : ∀ item ∈ items, item.Plain) :
    parser.parse spec (items.flatMap Item.tokens ++ escape :: last) = some ⟨items, last⟩ :=
  parser.parse_escaped hspec hfits hlast (spelledAll_tokens h)

theorem mapM_unsigned_repr (parser : Parser) {max : ℕ} {numbers : List ℕ}
    (h : ∀ n ∈ numbers, n ≤ max) :
    (numbers.map Nat.repr).mapM (parser.unsigned max) = some numbers := by
  induction numbers with
  | nil => rfl
  | cons n numbers ih =>
    rw [List.forall_mem_cons] at h
    rw [List.map_cons, List.mapM_cons, parser.unsigned_repr h.1, ih h.2]
    rfl

end Parser

namespace Matches

def values (m : Matches) (name : String) : List Token :=
  m.items.filterMap fun
    | .option other value => if other = name then some value else none
    | _ => none

theorem values_append (items items' : List Item) (last : List Token) (name : String) :
    (Matches.mk (items ++ items') last).values name =
      (Matches.mk items last).values name ++ (Matches.mk items' last).values name :=
  List.filterMap_append

theorem values_option {α : Type} (other : String) (f : α → Token) (given : List α)
    (last : List Token) (name : String) :
    (Matches.mk (given.map fun value => Item.option other (f value)) last).values name =
      if other = name then given.map f else [] := by
  rw [values, List.filterMap_map]
  split
  · next h => simp [h]
  · next h => simp [h]

def value (m : Matches) (name : String) : Option Token := (m.values name).head?

def flag (m : Matches) (name : String) : Bool := decide (Item.flag name ∈ m.items)

def positional (m : Matches) : Option Token :=
  (m.items.filterMap fun
    | .positional value => some value
    | _ => none).head?

theorem mem_of_positional {m : Matches} {value : Token} (h : m.positional = some value) :
    .positional value ∈ m.items := by
  have hmem := List.mem_of_mem_head? h
  obtain ⟨item, hitem, hvalue⟩ := List.mem_filterMap.mp hmem
  cases item with
  | flag name => cases hvalue
  | option name value => cases hvalue
  | positional value =>
    cases hvalue
    exact hitem

end Matches

/-- What follows the escape. -/
def afterEscape (spec : List Arg) (rest : List Token) : Matches :=
  if HasLast spec then ⟨[], rest⟩ else ⟨rest.map Item.positional, []⟩

def Matches.cons (item : Item) (m : Matches) : Matches := { m with items := item :: m.items }

def IsFlag (spec : List Arg) (name : String) : Prop := (Item.flag name).Declared spec

instance (spec : List Arg) (name : String) : Decidable (IsFlag spec name) :=
  inferInstanceAs (Decidable ((Item.flag name).Declared spec))

def parseTokens (spec : List Arg) : List Token → Option Matches
  | [] => some ⟨[], []⟩
  | token :: rest =>
    if token = escape then some (afterEscape spec rest)
    else if token.toList.take 2 = ['-', '-'] then
      let body := token.toList.drop 2
      if '=' ∈ body then
        (parseTokens spec rest).map (.cons (.option (String.ofList (body.takeWhile (· ≠ '=')))
          (String.ofList (body.dropWhile (· ≠ '=')).tail)))
      else if IsFlag spec (String.ofList body) then
        (parseTokens spec rest).map (.cons (.flag (String.ofList body)))
      else
        match rest with
        | [] => none
        | value :: rest =>
          if Hyphenated value then none
          else (parseTokens spec rest).map (.cons (.option (String.ofList body) value))
    else if Hyphenated token then none
    else (parseTokens spec rest).map (.cons (.positional token))

def parse (spec : List Arg) (tokens : List Token) : Option Matches :=
  (parseTokens spec tokens).filter (Fits spec)

/-! What `parseTokens` does with each spelling. -/

section ParseTokens

variable {spec : List Arg}

theorem toList_long (name : String) : (long name).toList = '-' :: '-' :: name.toList := by
  rw [long, String.toList_append]
  rfl

theorem long_ne_escape {name : String} (h : name ≠ "") : long name ≠ escape := by
  intro heq
  have hlist : (long name).toList = escape.toList := congrArg String.toList heq
  rw [toList_long] at hlist
  have hnil : name.toList = [] := by simpa [escape] using hlist
  exact h (String.toList_inj.mp hnil)

theorem declared_flag {name : String} :
    (Item.flag name).Declared spec ↔ ∃ arg ∈ spec, arg.kind = .flag ∧ arg.name = name := by
  simp [Item.Declared, Item.isOf]

theorem declared_option {name : String} {value : Token} :
    (Item.option name value).Declared spec ↔
      ∃ arg ∈ spec, (arg.kind = .option false ∨ arg.kind = .option true) ∧ arg.name = name := by
  simp [Item.Declared, Item.isOf]

/-- One name is not a flag's and an option's. -/
theorem not_isFlag {name : String} {value : Token} (hspec : WellNamed spec)
    (h : (Item.option name value).Declared spec) : ¬ IsFlag spec name := by
  intro hflag
  obtain ⟨arg, harg, hkind, hname⟩ := declared_option.mp h
  obtain ⟨other, hother, hotherKind, hotherName⟩ := declared_flag.mp hflag
  have heq : other = arg :=
    List.inj_on_of_nodup_map hspec.nodup hother harg (hotherName.trans hname.symm)
  rw [heq] at hotherKind
  rw [hotherKind] at hkind
  simp at hkind

theorem name_wellFormed {name : String} {item : Item} (hspec : WellNamed spec)
    (h : item.Declared spec) (hitem : item = .flag name ∨ ∃ value, item = .option name value) :
    name ≠ "" ∧ '=' ∉ name.toList := by
  have hname : ∃ arg ∈ spec, arg.name = name := by
    rcases hitem with rfl | ⟨value, rfl⟩
    · obtain ⟨arg, harg, _, hname⟩ := declared_flag.mp h
      exact ⟨arg, harg, hname⟩
    · obtain ⟨arg, harg, _, hname⟩ := declared_option.mp h
      exact ⟨arg, harg, hname⟩
  obtain ⟨arg, harg, rfl⟩ := hname
  exact ⟨hspec.ne_empty arg harg, hspec.unassigned arg harg⟩

theorem take_long (name : String) : (long name).toList.take 2 = ['-', '-'] := by
  rw [toList_long]
  rfl

theorem drop_long (name : String) : (long name).toList.drop 2 = name.toList := by
  rw [toList_long]
  rfl

theorem parseTokens_flag {name : String} {rest : List Token} (hspec : WellNamed spec)
    (h : (Item.flag name).Declared spec) :
    parseTokens spec (long name :: rest) = (parseTokens spec rest).map (.cons (.flag name)) := by
  have hname := name_wellFormed hspec h (Or.inl rfl)
  have hflag : IsFlag spec name := h
  rw [parseTokens.eq_def]
  simp only [if_neg (long_ne_escape hname.1), if_pos (take_long name), drop_long,
    if_neg hname.2, String.ofList_toList, if_pos hflag]

theorem parseTokens_option {name : String} {value : Token} {rest : List Token}
    (hspec : WellNamed spec) (h : (Item.option name value).Declared spec) :
    parseTokens spec (long name :: value :: rest) =
      if Hyphenated value then none
      else (parseTokens spec rest).map (.cons (.option name value)) := by
  have hname := name_wellFormed hspec h (Or.inr ⟨value, rfl⟩)
  rw [parseTokens.eq_def]
  simp only [if_neg (long_ne_escape hname.1), if_pos (take_long name), drop_long,
    if_neg hname.2, String.ofList_toList, if_neg (not_isFlag hspec h)]

/-- An option and its value may be joined by an equals sign. -/
theorem parseTokens_joined {name : String} {value : Token} {rest : List Token}
    (hspec : WellNamed spec) (h : (Item.option name value).Declared spec) :
    parseTokens spec ((long name ++ "=" ++ value) :: rest) =
      (parseTokens spec rest).map (.cons (.option name value)) := by
  have hname := name_wellFormed hspec h (Or.inr ⟨value, rfl⟩)
  have hlist : (long name ++ "=" ++ value).toList =
      '-' :: '-' :: (name.toList ++ '=' :: value.toList) := by
    rw [String.toList_append, String.toList_append, toList_long]
    simp
  have hescape : long name ++ "=" ++ value ≠ escape := by
    intro heq
    rw [heq] at hlist
    simp [escape] at hlist
  have hbefore : (name.toList ++ '=' :: value.toList).takeWhile (· ≠ '=') = name.toList := by
    rw [List.takeWhile_append_of_pos]
    · simp
    · intro c hc
      simp only [decide_eq_true_eq]
      intro heq
      rw [heq] at hc
      exact hname.2 hc
  have hafter : (name.toList ++ '=' :: value.toList).dropWhile (· ≠ '=') =
      '=' :: value.toList := by
    rw [List.dropWhile_append_of_pos]
    · simp
    · intro c hc
      simp only [decide_eq_true_eq]
      intro heq
      rw [heq] at hc
      exact hname.2 hc
  have hassigned : '=' ∈ name.toList ++ '=' :: value.toList := by simp
  rw [parseTokens.eq_def]
  simp only [if_neg hescape, hlist, List.take_succ_cons, List.take_zero, if_true,
    List.drop_succ_cons, List.drop_zero, if_pos hassigned, hbefore, hafter, List.tail_cons,
    String.ofList_toList]

theorem hyphenated_of_take {value : Token} (h : value.toList.take 2 = ['-', '-']) :
    Hyphenated value := by
  constructor
  · have hhead : (value.toList.take 2).head? = value.toList.head? := by
      rw [List.head?_take]
      simp
    rw [← hhead, h]
    rfl
  · intro heq
    rw [heq] at h
    simp at h

theorem parseTokens_positional {value : Token} {rest : List Token} (h : ¬ Hyphenated value) :
    parseTokens spec (value :: rest) =
      (parseTokens spec rest).map (.cons (.positional value)) := by
  have hescape : value ≠ escape := by
    intro heq
    rw [heq] at h
    exact h (by decide)
  rw [parseTokens.eq_def]
  simp only [if_neg hescape, if_neg fun htake => h (hyphenated_of_take htake), if_neg h]

theorem parseTokens_spelled {item : Item} {tokens rest : List Token} (hspec : WellNamed spec)
    (hdeclared : item.Declared spec) (h : Spelled item tokens) :
    parseTokens spec (tokens ++ rest) = (parseTokens spec rest).map (.cons item) := by
  cases h with
  | flag name => exact parseTokens_flag hspec hdeclared
  | separate name hvalue => exact (parseTokens_option hspec hdeclared).trans (if_neg hvalue)
  | joined name value => exact parseTokens_joined hspec hdeclared
  | positional hvalue => exact parseTokens_positional hvalue

/-- By induction on the spelling: every item is read off the front. -/
theorem parseTokens_spelledAll {items : List Item} {tokens rest : List Token}
    (hspec : WellNamed spec) (hdeclared : ∀ item ∈ items, item.Declared spec)
    (h : SpelledAll items tokens) :
    parseTokens spec (tokens ++ rest) =
      (parseTokens spec rest).map fun m => { m with items := items ++ m.items } := by
  induction h with
  | nil =>
    rw [List.nil_append]
    simp
  | cons hitem _ ih =>
    rw [List.forall_mem_cons] at hdeclared
    rw [List.append_assoc, parseTokens_spelled hspec hdeclared.1 hitem, ih hdeclared.2,
      Option.map_map]
    rfl

theorem Escaped.append {value : Token} {rest : List Token} (h : Escaped value rest)
    (first : List Token) : Escaped value (first ++ rest) := by
  obtain ⟨before, after, heq, hafter⟩ := h
  exact ⟨first ++ before, after, by rw [heq, List.append_assoc], hafter⟩

theorem mem_of_map_cons {rest : List Token} {item other : Item} {m : Matches}
    (hparse : (parseTokens spec rest).map (.cons other) = some m) (hmem : item ∈ m.items)
    (hne : item ≠ other) : ∃ m', parseTokens spec rest = some m' ∧ item ∈ m'.items := by
  obtain ⟨m', hm', heq⟩ := Option.map_eq_some_iff.mp hparse
  rw [← heq] at hmem
  rcases List.mem_cons.mp hmem with hhead | htail
  · exact absurd hhead hne
  · exact ⟨m', hm', htail⟩

/-- By induction on the tokens: a positional in front of the escape is read where it stands. -/
theorem escaped_of_parseTokens {tokens : List Token} {value : Token} (h : Hyphenated value) :
    ∀ {m : Matches}, parseTokens spec tokens = some m → .positional value ∈ m.items →
      Escaped value tokens := by
  fun_induction parseTokens spec tokens with
  | case1 =>
    intro m hparse hmem
    cases hparse
    cases hmem
  | case2 rest =>
    intro m hparse hmem
    refine ⟨[], rest, rfl, ?_⟩
    cases hparse
    unfold afterEscape at hmem
    split at hmem
    · cases hmem
    · obtain ⟨token, htoken, heq⟩ := List.mem_map.mp hmem
      cases heq
      exact htoken
  | case3 token rest =>
    rename_i ih
    intro m hparse hmem
    obtain ⟨m', hrest, hmem'⟩ := mem_of_map_cons hparse hmem (by simp)
    exact (ih hrest hmem').append [token]
  | case4 token rest =>
    rename_i ih
    intro m hparse hmem
    obtain ⟨m', hrest, hmem'⟩ := mem_of_map_cons hparse hmem (by simp)
    exact (ih hrest hmem').append [token]
  | case5 =>
    intro m hparse
    cases hparse
  | case6 =>
    intro m hparse
    cases hparse
  | case7 token =>
    rename_i next rest _ ih
    intro m hparse hmem
    obtain ⟨m', hrest, hmem'⟩ := mem_of_map_cons hparse hmem (by simp)
    exact (ih hrest hmem').append [token, next]
  | case8 =>
    intro m hparse
    cases hparse
  | case9 token rest _ _ hplain ih =>
    intro m hparse hmem
    have hne : Item.positional value ≠ .positional token := by
      intro heq
      cases heq
      exact hplain h
    obtain ⟨m', hrest, hmem'⟩ := mem_of_map_cons hparse hmem hne
    exact (ih hrest hmem').append [token]

end ParseTokens

theorem parse_eq_some {spec : List Arg} {tokens : List Token} {m : Matches} :
    parse spec tokens = some m ↔ parseTokens spec tokens = some m ∧ Fits spec m := by
  simp [parse, Option.filter_eq_some_iff]

/-- The library, for commands without short options. -/
def documented : Parser where
  parse := parse
  unsigned max value := (Decimal.fromStr max value.toList).toOption
  parse_spelled := by
    intro spec items tokens hspec hfits h
    have hread := @parseTokens_spelledAll spec items tokens [] hspec hfits.declared h
    rw [List.append_nil] at hread
    rw [parse_eq_some, hread]
    exact ⟨by simp [parseTokens], hfits⟩
  parse_escaped := by
    intro spec items tokens last hspec hfits hlast h
    rw [parse_eq_some, parseTokens_spelledAll hspec hfits.declared h]
    exact ⟨by simp [parseTokens, afterEscape, if_pos hlast], hfits⟩
  parse_hyphenated := by
    intro spec items tokens rest name value hspec hdeclared h hoption hvalue
    rw [parse, parseTokens_spelledAll hspec hdeclared h, parseTokens_option hspec hoption,
      if_pos hvalue]
    rfl
  positional_escaped := by
    intro spec tokens m value hparse hmem hvalue
    exact escaped_of_parseTokens hvalue (parse_eq_some.mp hparse).1 hmem
  unsigned_repr := by
    intro max n hn
    rw [Decimal.fromStr_eq_ok.mpr (Decimal.literal_repr hn)]
    rfl

end CommandLine
