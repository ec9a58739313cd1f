import Nes.Cli.Options
import Nes.Proofs.Text.Numeral

/-! The grammar of a command line. Its items are options, some with a value, and the name of a file.
A command line is read without choice: the words of the items determine the items. -/

namespace Nes.Cli

open Decimal

/-- One item of a command line, with what makes its words acceptable. -/
inductive Item where
  | help (long : Bool)
  | trace
  | headless (text : String) (frames : Nat) (denotes : Denotes text.toList frames)
      (small : frames < UInt64.size)
  | scale (text : String) (factor : Int) (denotes : DenotesInt text.toList factor)
      (inside : 1 ≤ factor ∧ factor ≤ 16)
  | file (path : String) (free : path.toList.head? ≠ some '-')

namespace Item

def words : Item → List String
  | help long => [if long then "--help" else "-h"]
  | trace => ["--trace"]
  | headless text .. => ["--headless", text]
  | scale text .. => ["--scale", text]
  | file path _ => [path]

def isHelp : Item → Bool
  | help _ => true
  | _ => false

def isTrace : Item → Bool
  | trace => true
  | _ => false

def frames? : Item → Option UInt64
  | headless _ frames .. => some (.ofNat frames)
  | _ => none

def factor? : Item → Option Nat
  | scale _ factor .. => some factor.toNat
  | _ => none

def path? : Item → Option String
  | file path _ => some path
  | _ => none

/-- The arguments of a number of items, one item behind the other. -/
def line (items : List Item) : List String :=
  items.flatMap words

/-- The last value that is given by any of the items. -/
def lastGiven {α : Type} (value? : Item → Option α) (items : List Item) : Option α :=
  (items.filterMap value?).getLast?

/-- No more than one of the items gives a value of some kind. -/
def AtMostOne {α : Type} (value? : Item → Option α) (items : List Item) : Prop :=
  (items.filterMap value?).length ≤ 1

instance {α : Type} (value? : Item → Option α) (items : List Item) :
    Decidable (AtMostOne value? items) :=
  inferInstanceAs (Decidable (_ ≤ 1))

/-- What the items of a command line ask for. -/
def options (items : List Item) : Options where
  romFile := (lastGiven path? items).getD "smb.nes"
  trace := items.any isTrace
  headlessFrames := lastGiven frames? items
  scale := (lastGiven factor? items).getD 3
  showHelp := items.any isHelp

/-- The options behind an item that follows others. -/
def applyTo (options : Options) : Item → Options
  | help _ => { options with showHelp := true }
  | trace => { options with trace := true }
  | headless _ frames .. => { options with headlessFrames := some (.ofNat frames) }
  | scale _ factor .. => { options with scale := factor.toNat }
  | file path _ => { options with romFile := path }

@[simp] theorem line_nil : line [] = [] := rfl

@[simp] theorem line_cons (item : Item) (items : List Item) :
    line (item :: items) = item.words ++ line items := rfl

/-- The last value of a command line is that of the rest, or else that of its first item. -/
theorem lastGiven_cons {α : Type} (value? : Item → Option α) (item : Item) (items : List Item) :
    lastGiven value? (item :: items) = (lastGiven value? items).or (value? item) := by
  rw [lastGiven, lastGiven, List.filterMap_cons]
  cases value? item with
  | none => rw [Option.or_none]
  | some value =>
      rw [List.getLast?_cons]
      cases (items.filterMap value?).getLast? <;> rfl

/-- Items that are applied one behind the other leave the last values that are given. -/
theorem foldl_applyTo (start : Options) (items : List Item) :
    items.foldl applyTo start =
      { romFile := (lastGiven path? items).getD start.romFile
        trace := start.trace || items.any isTrace
        headlessFrames := (lastGiven frames? items).or start.headlessFrames
        scale := (lastGiven factor? items).getD start.scale
        showHelp := start.showHelp || items.any isHelp } := by
  induction items generalizing start with
  | nil => simp [lastGiven]
  | cons item items ih =>
      rw [List.foldl_cons, ih, lastGiven_cons, lastGiven_cons, lastGiven_cons]
      cases item <;>
        simp [applyTo, path?, frames?, factor?, isHelp, isTrace]

/-- Applying the items of a command line to the default options gives the options that they say. -/
theorem foldl_applyTo_default (items : List Item) : items.foldl applyTo {} = options items := by
  rw [foldl_applyTo, options]
  simp

end Item

namespace Options

open Item

/-- A number of pictures is a numeral within 64 bits. -/
theorem frames?_eq_some_iff {text : String} {frames : UInt64} :
    frames? text = some frames ↔
      ∃ n, Denotes text.toList n ∧ n < UInt64.size ∧ frames = .ofNat n := by
  rw [frames?]
  cases hRead : Decimal.nat? text.toList with
  | none =>
      refine iff_of_false (by simp) fun ⟨n, hDenotes, _⟩ => ?_
      rw [nat?_eq_some_iff.mpr hDenotes] at hRead
      cases hRead
  | some n =>
      have hDenotes := nat?_eq_some_iff.mp hRead
      constructor
      · intro hFrames
        simp only at hFrames
        split at hFrames
        · rename_i hSmall
          exact ⟨n, hDenotes, hSmall, (Option.some.inj hFrames).symm⟩
        · cases hFrames
      · rintro ⟨m, hOther, hSmall, rfl⟩
        rw [← hDenotes.unique hOther] at hSmall ⊢
        exact if_pos hSmall

/-- A factor is a numeral with a sign within 32 bits. -/
theorem int32?_eq_some_iff {text : String} {n : Int} :
    int32? text = some n ↔
      DenotesInt text.toList n ∧ Int32.minValue.toInt ≤ n ∧ n ≤ Int32.maxValue.toInt := by
  rw [int32?]
  cases hRead : Decimal.int? text.toList with
  | none =>
      refine iff_of_false (by simp) fun ⟨hDenotes, _⟩ => ?_
      rw [int?_eq_some_iff.mpr hDenotes] at hRead
      cases hRead
  | some m =>
      have hDenotes := int?_eq_some_iff.mp hRead
      constructor
      · intro hNumber
        simp only at hNumber
        split at hNumber
        · rename_i hSmall
          obtain rfl := Option.some.inj hNumber
          exact ⟨hDenotes, hSmall⟩
        · cases hNumber
      · rintro ⟨hOther, hSmall⟩
        obtain rfl := hDenotes.unique hOther
        exact if_pos hSmall

/-- A factor is accepted from 1 to 16. -/
theorem scaleOf_eq_ok_iff {text : String} {scale : Nat} :
    scaleOf text = .ok scale ↔
      ∃ n : Int, DenotesInt text.toList n ∧ (1 ≤ n ∧ n ≤ 16) ∧ scale = n.toNat := by
  rw [scaleOf]
  cases hRead : int32? text with
  | none =>
      refine iff_of_false (by simp) fun ⟨n, hDenotes, hInside, _⟩ => ?_
      have hSmall : Int32.minValue.toInt ≤ n ∧ n ≤ Int32.maxValue.toInt :=
        ⟨Int.le_trans (by decide) hInside.1, Int.le_trans hInside.2 (by decide)⟩
      rw [int32?_eq_some_iff.mpr ⟨hDenotes, hSmall⟩] at hRead
      cases hRead
  | some m =>
      have hDenotes := (int32?_eq_some_iff.mp hRead).1
      constructor
      · intro hScale
        simp only at hScale
        split at hScale
        · rename_i hInside
          exact ⟨m, hDenotes, hInside, (Except.ok.inj hScale).symm⟩
        · cases hScale
      · rintro ⟨n, hOther, hInside, rfl⟩
        obtain rfl := hDenotes.unique hOther
        exact if_pos hInside

/-- An argument without a minus sign in front is none of the options. -/
theorem ne_of_free {argument option : String} (hFree : argument.toList.head? ≠ some '-')
    (hOption : option.toList.head? = some '-') : argument ≠ option := by
  rintro rfl
  exact hFree hOption

/-- A word without a dash is the image, and only one is accepted. -/
theorem parseFrom_free (options : Options) (romSeen : Bool) {path : String} (rest : List String)
    (hFree : path.toList.head? ≠ some '-') :
    parseFrom options romSeen (path :: rest) =
      if romSeen then .error (.unexpectedArgument path)
      else parseFrom { options with romFile := path } true rest := by
  have hNone {option : String} (hOption : option.toList.head? = some '-') : path ≠ option :=
    ne_of_free hFree hOption
  rw [parseFrom.eq_9 options romSeen path rest (hNone rfl) (hNone rfl) (hNone rfl)
    (fun hSame _ => hNone rfl hSame) (fun _ _ hSame _ => hNone rfl hSame)
    (fun hSame _ => hNone rfl hSame) (fun _ _ hSame _ => hNone rfl hSame), if_neg hFree]

/-- An item is read as a whole, unless it names a second file. -/
theorem parseFrom_words (options : Options) {romSeen : Bool} {item : Item} (rest : List String)
    (hFile : romSeen = true → item.path? = none) :
    parseFrom options romSeen (item.words ++ rest) =
      parseFrom (item.applyTo options) (romSeen || item.path?.isSome) rest := by
  cases item with
  | help long => cases long <;> simp [words, parseFrom, applyTo, path?]
  | trace => simp [words, parseFrom, applyTo, path?]
  | headless text frames denotes small =>
      have hFrames := frames?_eq_some_iff.mpr ⟨frames, denotes, small, rfl⟩
      simp [words, parseFrom, applyTo, path?, hFrames]
  | scale text factor denotes inside =>
      have hScale := scaleOf_eq_ok_iff.mpr ⟨factor, denotes, inside, rfl⟩
      simp [words, parseFrom, applyTo, path?, hScale]
  | file path free =>
      have hUnseen : romSeen = false := by
        cases romSeen with
        | false => rfl
        | true => cases hFile rfl
      subst hUnseen
      exact parseFrom_free options false rest free

/-- The words of some items are read as these items, unless there are two files among them. -/
theorem parseFrom_line (options : Options) {romSeen : Bool} {items : List Item}
    (hFiles : (items.filterMap path?).length + romSeen.toNat ≤ 1) :
    parseFrom options romSeen (line items) = .ok (items.foldl applyTo options) := by
  induction items generalizing options romSeen with
  | nil => rfl
  | cons item items ih =>
      rw [List.filterMap_cons] at hFiles
      have hFile : romSeen = true → item.path? = none := by
        rintro rfl
        cases hPath : item.path? with
        | none => rfl
        | some path => simp [hPath] at hFiles
      rw [line_cons, parseFrom_words options _ hFile, List.foldl_cons]
      refine ih _ ?_
      cases hPath : item.path? with
      | none => simpa [hPath] using hFiles
      | some path =>
          have hUnseen : romSeen = false := by
            cases romSeen with
            | false => rfl
            | true => cases (hFile rfl).symm.trans hPath
          simpa [hPath, hUnseen] using hFiles

/-- What is read consists of the words of some items, with no more than one file among them. -/
theorem exists_line_of_parseFrom {options result : Options} {romSeen : Bool}
    {arguments : List String} (hRead : parseFrom options romSeen arguments = .ok result) :
    ∃ items, arguments = line items ∧ (items.filterMap path?).length + romSeen.toNat ≤ 1 := by
  fun_induction parseFrom options romSeen arguments with
  | case1 options romSeen => exact ⟨[], rfl, by simpa using Bool.toNat_le romSeen⟩
  | case2 options romSeen rest ih =>
      obtain ⟨items, rfl, hFiles⟩ := ih hRead
      exact ⟨.help false :: items, rfl, hFiles⟩
  | case3 options romSeen rest ih =>
      obtain ⟨items, rfl, hFiles⟩ := ih hRead
      exact ⟨.help true :: items, rfl, hFiles⟩
  | case4 options romSeen rest ih =>
      obtain ⟨items, rfl, hFiles⟩ := ih hRead
      exact ⟨.trace :: items, rfl, hFiles⟩
  | case6 options romSeen text rest frames hFrames ih =>
      obtain ⟨items, rfl, hFiles⟩ := ih hRead
      obtain ⟨n, hDenotes, hSmall, -⟩ := frames?_eq_some_iff.mp hFrames
      exact ⟨.headless text n hDenotes hSmall :: items, rfl, hFiles⟩
  | case9 options romSeen text rest scale hScale ih =>
      obtain ⟨items, rfl, hFiles⟩ := ih hRead
      obtain ⟨n, hDenotes, hInside, -⟩ := scaleOf_eq_ok_iff.mp hScale
      exact ⟨.scale text n hDenotes hInside :: items, rfl, hFiles⟩
  | case13 options romSeen path rest _ _ _ _ _ _ _ hFree hUnseen ih =>
      obtain ⟨items, rfl, hFiles⟩ := ih hRead
      refine ⟨.file path hFree :: items, rfl, ?_⟩
      rw [Bool.not_eq_true] at hUnseen
      simpa [path?, hUnseen] using hFiles
  | _ => cases hRead

end Options

namespace Item

/-- An item has one argument, or two of which the second is a number. -/
theorem words_cases (item : Item) :
    (∃ word, item.words = [word]) ∨
      ∃ word value n, item.words = [word, value] ∧ Denotes value.toList n := by
  cases item with
  | help long => exact .inl ⟨_, rfl⟩
  | trace => exact .inl ⟨_, rfl⟩
  | headless text frames denotes small => exact .inr ⟨_, text, _, rfl, denotes⟩
  | scale text factor denotes inside => exact .inr ⟨_, text, _, rfl, denotes.of_pos inside.1⟩
  | file path free => exact .inl ⟨path, rfl⟩

/-- An argument without a minus sign in front is a file. -/
theorem eq_file_of_free {path : String} (free : path.toList.head? ≠ some '-') {item : Item}
    {rest others : List String} (hWords : path :: rest = item.words ++ others) :
    item = .file path free ∧ rest = others := by
  cases item with
  | file other _ =>
      obtain ⟨rfl, rfl⟩ := List.cons.inj hWords
      exact ⟨rfl, rfl⟩
  | help long => cases long <;> (cases hWords; exact absurd rfl free)
  | _ => cases hWords; exact absurd rfl free

/-- The words of an item show where it ends, and which item it is. -/
theorem words_append_inj {first second : Item} {rest others : List String}
    (hWords : first.words ++ rest = second.words ++ others) : first = second ∧ rest = others := by
  cases first with
  | file path free =>
      obtain ⟨rfl, rfl⟩ := eq_file_of_free free hWords
      exact ⟨rfl, rfl⟩
  | _ =>
      cases second with
      | file path free =>
          obtain ⟨hItem, -⟩ := eq_file_of_free free hWords.symm
          cases hItem
      -- The names of two options differ, and the text of a value gives its number.
      | _ => grind [words, Denotes.unique, DenotesInt.unique]

/-- A command line has only one reading. -/
theorem line_injective : Function.Injective line := by
  intro first second hLine
  induction first generalizing second with
  | nil =>
      cases second with
      | nil => rfl
      | cons item items => cases item <;> cases hLine
  | cons item items ih =>
      cases second with
      | nil => cases item <;> cases hLine
      | cons other others =>
          obtain ⟨rfl, hRest⟩ := words_append_inj hLine
          rw [ih hRest]

/-- The name of an option is found only where an item starts. -/
theorem mem_line_iff {option : String} (hOption : option.toList.head? = some '-')
    (items : List Item) :
    option ∈ line items ↔ ∃ item ∈ items, item.words.head? = some option := by
  rw [line, List.mem_flatMap]
  refine exists_congr fun item => and_congr_right fun _ => ?_
  obtain ⟨word, hWords⟩ | ⟨word, value, n, hWords, hValue⟩ := item.words_cases
  · simp [hWords, eq_comm]
  · have hOther : option ≠ value := by
      rintro rfl
      exact hValue.head?_ne hOption
    simp [hWords, hOther, eq_comm]

/-- The word for tracing stands on a command line exactly if it is one of its items. -/
theorem trace_mem_line (items : List Item) :
    "--trace" ∈ line items ↔ items.any isTrace = true := by
  rw [mem_line_iff rfl, List.any_eq_true]
  refine exists_congr fun item => and_congr_right fun _ => ?_
  cases item with
  | help long => cases long <;> simp [words, isTrace]
  | file path free =>
      simp only [words, List.head?_cons, Option.some.injEq, isTrace, Bool.false_eq_true, iff_false]
      exact Options.ne_of_free free rfl
  | _ => simp [words, isTrace]

theorem help_mem_line (items : List Item) :
    "-h" ∈ line items ∨ "--help" ∈ line items ↔ items.any isHelp = true := by
  rw [mem_line_iff rfl, mem_line_iff rfl, ← exists_or, List.any_eq_true]
  refine exists_congr fun item => ?_
  rw [← and_or_left]
  refine and_congr_right fun _ => ?_
  cases item with
  | help long => cases long <;> simp [words, isHelp]
  | file path free =>
      simp only [words, List.head?_cons, Option.some.injEq, isHelp, Bool.false_eq_true, iff_false,
        not_or]
      exact ⟨Options.ne_of_free free rfl, Options.ne_of_free free rfl⟩
  | _ => simp [words, isHelp]

/-- An item that starts with an option that takes a value goes on with the value. -/
theorem exists_value_of_words {item : Item} {option : String} {after rest : List String}
    (hOption : option = "--headless" ∨ option = "--scale")
    (hWords : item.words ++ rest = option :: after) :
    ∃ value rest n, after = value :: rest ∧ Denotes value.toList n := by
  cases item with
  | headless text frames denotes small =>
      exact ⟨text, rest, frames, (List.cons.inj hWords).2.symm, denotes⟩
  | scale text factor denotes inside =>
      exact ⟨text, rest, _, (List.cons.inj hWords).2.symm, denotes.of_pos inside.1⟩
  | help long => cases long <;> (cases hWords; simp at hOption)
  | trace =>
      cases hWords
      simp at hOption
  | file path free =>
      obtain ⟨rfl, -⟩ := List.cons.inj hWords
      obtain rfl | rfl := hOption <;> exact absurd rfl free

/-- Wherever an option that takes a value stands on a command line, its value follows. -/
theorem exists_value {items : List Item} {before after : List String} {option : String}
    (hOption : option = "--headless" ∨ option = "--scale")
    (hLine : line items = before ++ option :: after) :
    ∃ value rest n, after = value :: rest ∧ Denotes value.toList n := by
  induction items generalizing before with
  | nil => simp at hLine
  | cons item items ih =>
      rw [line_cons] at hLine
      cases before with
      | nil => exact exists_value_of_words hOption hLine
      | cons word before =>
          obtain ⟨first, hWords⟩ | ⟨first, value, n, hWords, hValue⟩ := item.words_cases
          · rw [hWords] at hLine
            exact ih (List.cons.inj hLine).2
          · rw [hWords] at hLine
            have hRest := (List.cons.inj hLine).2
            cases before with
            | nil =>
                -- The option would be the value of the item, which starts with a digit.
                obtain ⟨rfl, -⟩ := List.cons.inj hRest
                obtain rfl | rfl := hOption <;> exact absurd rfl hValue.head?_ne
            | cons word before => exact ih (List.cons.inj hRest).2

/-- Items may change places if none of them is given twice. -/
theorem options_perm {first second : List Item} (hPerm : first.Perm second)
    (hFrames : AtMostOne frames? first) (hFactor : AtMostOne factor? first)
    (hPath : AtMostOne path? first) : options first = options second := by
  have hSame {α : Type} {value? : Item → Option α} (hOne : AtMostOne value? first) :
      first.filterMap value? = second.filterMap value? := by
    have hValues := hPerm.filterMap value?
    cases hFirst : first.filterMap value? with
    | nil =>
        rw [hFirst] at hValues
        exact hValues.nil_eq
    | cons value values =>
        rw [AtMostOne, hFirst, List.length_cons] at hOne
        obtain rfl := List.length_eq_zero_iff.mp (Nat.le_zero.mp (Nat.le_of_succ_le_succ hOne))
        rw [hFirst] at hValues
        exact hValues.singleton_eq
  simp only [options, lastGiven, hSame hFrames, hSame hFactor, hSame hPath, hPerm.any_eq]

end Item

/-- A command line is accepted exactly if it is made up of items with at most one file, and then it
asks for what the items ask for. -/
theorem parse_eq_ok_iff (arguments : List String) (options : Options) :
    Options.parse arguments = .ok options ↔
      ∃ items, arguments = Item.line items ∧ Item.AtMostOne Item.path? items ∧
        options = Item.options items := by
  have hRead {items : List Item} (hFiles : Item.AtMostOne Item.path? items) :
      Options.parse (Item.line items) = .ok (Item.options items) := by
    rw [Options.parse, @Options.parseFrom_line {} false items hFiles, Item.foldl_applyTo_default]
  constructor
  · intro hParse
    obtain ⟨items, rfl, hFiles⟩ := Options.exists_line_of_parseFrom hParse
    exact ⟨items, rfl, hFiles, Except.ok.inj (hParse.symm.trans (hRead hFiles))⟩
  · rintro ⟨items, rfl, hFiles, rfl⟩
    exact hRead hFiles

/-- The order of the items does not matter if no option has two values. -/
theorem toOption_parse_perm {items others : List Item} (hPerm : items.Perm others)
    (hFrames : Item.AtMostOne Item.frames? items) (hFactor : Item.AtMostOne Item.factor? items) :
    (Options.parse (Item.line items)).toOption = (Options.parse (Item.line others)).toOption := by
  have hFiles : Item.AtMostOne Item.path? items ↔ Item.AtMostOne Item.path? others := by
    rw [Item.AtMostOne, Item.AtMostOne, (hPerm.filterMap Item.path?).length_eq]
  by_cases hOne : Item.AtMostOne Item.path? items
  · rw [(parse_eq_ok_iff _ _).mpr ⟨items, rfl, hOne, rfl⟩,
      (parse_eq_ok_iff _ _).mpr ⟨others, rfl, hFiles.mp hOne, rfl⟩,
      Item.options_perm hPerm hFrames hFactor hOne]
  · have hRefused {list : List Item} (hTwo : ¬Item.AtMostOne Item.path? list) :
        (Options.parse (Item.line list)).toOption = none := by
      cases hParse : Options.parse (Item.line list) with
      | error error => rfl
      | ok options =>
          obtain ⟨same, hLine, hSame, -⟩ := (parse_eq_ok_iff _ _).mp hParse
          exact absurd (Item.line_injective hLine ▸ hSame) hTwo
    rw [hRefused hOne, hRefused fun hOther => hOne (hFiles.mpr hOther)]

/-- The command line has a grammar. It is accepted exactly if it is made up of options, of values
behind the two options that take one, and of one file at most; any other is refused. Flags are set
if they are on the line, options with a value have the last one that is given, and the file is the
one that is named. A line has only one reading: what stands behind an option that takes a value is
its value and nothing else. So the order of the items makes no difference if no option is given two
values. -/
theorem parse_grammar (arguments : List String) :
    (∀ options, Options.parse arguments = .ok options ↔
      ∃ items, arguments = Item.line items ∧ Item.AtMostOne Item.path? items ∧
        options = Item.options items) ∧
    ((∃ error, Options.parse arguments = .error error) ↔
      ¬∃ items, arguments = Item.line items ∧ Item.AtMostOne Item.path? items) ∧
    (∀ options, Options.parse arguments = .ok options →
      (options.trace = true ↔ "--trace" ∈ arguments) ∧
      (options.showHelp = true ↔ "-h" ∈ arguments ∨ "--help" ∈ arguments) ∧
      ∀ before option after, option = "--headless" ∨ option = "--scale" →
        arguments = before ++ option :: after →
        ∃ value rest n, after = value :: rest ∧ Denotes value.toList n) ∧
    Function.Injective Item.line ∧
    ∀ items others, items.Perm others → Item.AtMostOne Item.frames? items →
      Item.AtMostOne Item.factor? items →
      (Options.parse (Item.line items)).toOption =
        (Options.parse (Item.line others)).toOption := by
  refine ⟨parse_eq_ok_iff arguments, ?_, fun options hParse => ?_, Item.line_injective,
    fun items others => toOption_parse_perm⟩
  · cases hParse : Options.parse arguments with
    | error error =>
        refine iff_of_true ⟨error, rfl⟩ fun ⟨items, hLine, hFiles⟩ => ?_
        cases hParse.symm.trans ((parse_eq_ok_iff _ _).mpr ⟨items, hLine, hFiles, rfl⟩)
    | ok options =>
        obtain ⟨items, hLine, hFiles, -⟩ := (parse_eq_ok_iff _ _).mp hParse
        exact iff_of_false (fun ⟨_, hError⟩ => by cases hError) fun hNone =>
          hNone ⟨items, hLine, hFiles⟩
  · obtain ⟨items, rfl, -, rfl⟩ := (parse_eq_ok_iff _ _).mp hParse
    exact ⟨(Item.trace_mem_line items).symm, (Item.help_mem_line items).symm,
      fun before option after hOption hLine => Item.exists_value hOption hLine⟩

/-- Two numbers of pictures, a flag, a file and a size of the window. -/
def busyLine : List Item :=
  [.headless "120" 120 (by decide) (by decide),
    .file "game.nes" (by decide),
    .headless "007" 7 (by decide) (by decide), .trace,
    .scale "16" 16 (.unsigned (by decide)) (by decide)]

/-- A command line with an option given twice, and another one with an error. -/
theorem parse_grammar_busyLine :
    Options.parse
        ["--headless", "120", "game.nes", "--headless", "007", "--trace", "--scale", "16"] =
      .ok { romFile := "game.nes", trace := true, headlessFrames := some 7, scale := 16 } ∧
    (∃ error, Options.parse ["--headless", "--trace"] = .error error) ∧
    (Options.parse (Item.line busyLine.tail)).toOption =
      (Options.parse (Item.line busyLine.tail.reverse)).toOption := by
  obtain ⟨hAccepted, -, -, -, hOrder⟩ := parse_grammar (Item.line busyLine)
  obtain ⟨-, hRefused, -, -, -⟩ := parse_grammar ["--headless", "--trace"]
  refine ⟨(hAccepted _).mpr ⟨busyLine, rfl, by decide, rfl⟩, hRefused.mpr ?_, ?_⟩
  · rintro ⟨items, hLine, -⟩
    have hOption : Item.line items = [] ++ "--headless" :: ["--trace"] := hLine.symm
    obtain ⟨value, rest, n, hValue, hDenotes⟩ := Item.exists_value (.inl rfl) hOption
    cases hValue
    exact hDenotes.head?_ne rfl
  · exact hOrder _ _ (List.reverse_perm _).symm (by decide) (by decide)

end Nes.Cli
