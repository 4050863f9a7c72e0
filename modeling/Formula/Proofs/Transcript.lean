import Formula.Arguments
import Formula.Proofs.Trimming

namespace Formula

namespace Session

open Text

def bytes (text : String) : List UInt8 := text.toUTF8.data.toList

theorem fromUTF8?_bytes (text : String) :
    String.fromUTF8? (ByteArray.mk (bytes text).toArray) = some text := by
  rw [bytes, Array.toArray_toList, String.fromUTF8?]
  exact dif_pos text.isValidUTF8

theorem bytes_eq_flatMap (text : String) :
    bytes text = text.toList.flatMap String.utf8EncodeChar := by
  rw [bytes, String.toUTF8_eq_toByteArray, ← String.utf8Encode_toList, List.utf8Encode,
    List.data_toByteArray]

/-- Only the newline has its byte. -/
theorem eq_newline_of_mem_utf8EncodeChar {c : Char} (h : newline ∈ String.utf8EncodeChar c) :
    c = '\n' := by
  have hbyte : ∀ n, newline = UInt8.ofNat n → n % 256 = 10 := by
    intro n heq
    exact (congrArg UInt8.toNat heq).symm
  rw [String.utf8EncodeChar] at h
  split at h
  · next hc =>
    have hn := hbyte _ (List.mem_singleton.1 h)
    apply Char.ext
    apply UInt32.toNat_inj.1
    change c.val.toNat = 10
    omega
  · exfalso
    split at h
    · simp only [List.mem_cons, List.not_mem_nil, or_false] at h
      obtain h | h := h <;> have hn := hbyte _ h <;> omega
    split at h
    · simp only [List.mem_cons, List.not_mem_nil, or_false] at h
      obtain h | h | h := h <;> have hn := hbyte _ h <;> omega
    · simp only [List.mem_cons, List.not_mem_nil, or_false] at h
      obtain h | h | h | h := h <;> have hn := hbyte _ h <;> omega

theorem newline_notMem_bytes {text : String} (h : '\n' ∉ text.toList) : newline ∉ bytes text := by
  rw [bytes_eq_flatMap, List.mem_flatMap]
  rintro ⟨c, hc, hbyte⟩
  rw [eq_newline_of_mem_utf8EncodeChar hbyte] at hc
  exact h hc

theorem splitLines_of_notMem {line : List UInt8} (h : newline ∉ line) :
    splitLines line = [line] := by
  induction line with
  | nil => rfl
  | cons b line ih =>
    obtain ⟨hb, hl⟩ : b ≠ newline ∧ newline ∉ line := by
      simpa [eq_comm] using h
    rw [splitLines, if_neg hb, ih hl]

def farewells : List String := ["q", "quit", "exit"]

/-- An input that a session can be given on one line, and that is not taken for something else. -/
structure IsInput (input : String) : Prop where
  newline_notMem : '\n' ∉ input.toList
  ne_empty : input ≠ ""
  trim_eq : trim input = input
  notMem_farewells : input ∉ farewells

/-- A line has one input with blanks around it, or it has none and is blank. -/
inductive Enters : List String → String → Prop
  | nothing {line : String} (h : Blank line.toList) : Enters [] line
  | input {before input after : String} (hbefore : Blank before.toList)
      (hafter : Blank after.toList) : Enters [input] (before ++ input ++ after)

/-- The bytes of the lines that enter the inputs. The last line needs no newline behind it, and any
bytes may follow the line of a farewell. -/
inductive Types : List String → List UInt8 → Prop
  | last {inputs : List String} {line : String} (hline : '\n' ∉ line.toList)
      (h : Enters inputs line) : Types inputs (bytes line)
  | line {inputs inputs' : List String} {line : String} {bs : List UInt8}
      (hline : '\n' ∉ line.toList) (h : Enters inputs line) (hon : Types inputs' bs) :
      Types (inputs ++ inputs') (bytes line ++ newline :: bs)
  | ends {line : String} {bs : List UInt8} (hline : '\n' ∉ line.toList)
      (h : trim line ∈ farewells) (hbs : ∀ b ∈ bs.head?, b = newline) : Types [] (bytes line ++ bs)

open CommandLine (batch)

variable {settings : Settings} {inputs : List String} {line : String} {lines : List (List UInt8)}

theorem zip_parseAll (inputs : List String) :
    inputs.zip (Expr.parseAll inputs) = inputs.map fun input => (input, Expr.parse input) := by
  have h : (inputs.map id).zip (inputs.map Expr.parse) =
      inputs.map fun input => (input, Expr.parse input) := List.zip_map'
  rwa [List.map_id] at h

theorem batch_eq (settings : Settings) (inputs : List String) : batch settings inputs =
    String.join (inputs.map fun input => settings.report input (Expr.parse input) ++ "\n") := by
  rw [batch, zip_parseAll, List.map_map]
  rfl

theorem batch_append (settings : Settings) (inputs inputs' : List String) :
    batch settings (inputs ++ inputs') = batch settings inputs ++ batch settings inputs' := by
  simp only [batch_eq, List.map_append, String.join_append]

theorem reply_blank (settings : Settings) (h : Blank line.toList) :
    reply settings (bytes line) = .silence := by
  have htrim : trim line = "" := by rw [trim, trimChars_of_blank h]
  rw [reply, fromUTF8?_bytes]
  simp only [htrim]

theorem reply_farewell (settings : Settings) (h : trim line ∈ farewells) :
    reply settings (bytes line) = .farewell := by
  rw [reply, fromUTF8?_bytes]
  simp only [farewells, List.mem_cons, List.not_mem_nil, or_false] at h
  obtain h | h | h := h <;> simp only [h]

theorem reply_input (settings : Settings) {input before after : String} (h : IsInput input)
    (hbefore : Blank before.toList) (hafter : Blank after.toList) :
    reply settings (bytes (before ++ input ++ after)) =
      .report (settings.report input (Expr.parse input)) := by
  have hchars : trimChars input.toList = input.toList := by rw [← toList_trim, h.trim_eq]
  have htrimmed : Trimmed input.toList := by
    rw [← hchars]
    exact trimmed_trimChars input.toList
  let padded : Padded :=
    ⟨before.toList, input.toList, after.toList, hbefore, htrimmed, hafter⟩
  have htrim : trim (before ++ input ++ after) = input := by
    rw [trim, String.append_assoc, String.toList_append, String.toList_append]
    change String.ofList (trimChars padded.chars) = input
    rw [Padded.trimChars_chars, String.ofList_toList]
  have hfarewell := h.notMem_farewells
  have hempty := h.ne_empty
  rw [reply, fromUTF8?_bytes]
  simp only [htrim]
  split
  · exact absurd (by simp [farewells]) hfarewell
  · exact absurd (by simp [farewells]) hfarewell
  · exact absurd (by simp [farewells]) hfarewell
  · exact absurd rfl hempty
  · rfl

theorem replies_of_enters (h : Enters inputs line) (hinputs : ∀ input ∈ inputs, IsInput input)
    (lines : List (List UInt8)) :
    replies settings (bytes line :: lines) = batch settings inputs ++ replies settings lines := by
  rw [replies]
  cases h with
  | nothing h =>
    rw [reply_blank settings h]
    exact String.empty_append.symm
  | input hbefore hafter =>
    rw [reply_input settings (hinputs _ List.mem_cons_self) hbefore hafter]
    simp [batch_eq, String.join_cons]

theorem splitLines_farewell {line bs : List UInt8} (h : newline ∉ line)
    (hbs : ∀ b ∈ bs.head?, b = newline) : ∃ lines, splitLines (line ++ bs) = line :: lines := by
  cases bs with
  | nil => exact ⟨[], by rw [List.append_nil, splitLines_of_notMem h]⟩
  | cons b bs =>
    obtain rfl : b = newline := hbs b rfl
    exact ⟨splitLines bs, splitLines_append h bs⟩

theorem replies_of_types {bs : List UInt8} (h : Types inputs bs)
    (hinputs : ∀ input ∈ inputs, IsInput input) (settings : Settings) :
    replies settings (splitLines bs) = batch settings inputs := by
  induction h with
  | last hline h =>
    rw [splitLines_of_notMem (newline_notMem_bytes hline), replies_of_enters h hinputs, replies]
    exact String.append_empty
  | line hline h hon ih =>
    obtain ⟨hhead, htail⟩ := List.forall_mem_append.1 hinputs
    rw [splitLines_append (newline_notMem_bytes hline), replies_of_enters h hhead, ih htail,
      batch_append]
  | ends hline h hbs =>
    -- lines behind the farewell are not read
    obtain ⟨lines, hlines⟩ := splitLines_farewell (newline_notMem_bytes hline) hbs
    rw [hlines, replies, reply_farewell settings h]
    rfl

end Session

namespace CommandLine

open Session

/-- What stands behind the separator comes into the request as it is, and in its order. -/
def PassesExpressions (reader : Reader) : Prop :=
  ∀ args r, reader args = .ok r → "--" ∉ args →
    ∀ texts, reader (args ++ "--" :: texts) = .ok (r.addExpressions texts)

theorem run_of_ok {reader : Reader} {args : List String} {r : Request} (h : reader args = .ok r)
    (input : List UInt8) : run reader args input = r.outcome input := by
  rw [run, h]

/-- A session in which inputs are typed prints its greeting and then what a batch of the same inputs
prints. So the program prints the same for options alone, when the inputs come in on lines, and for
these options with the inputs behind them, and it ends well in both cases. -/
theorem transcript_eq_batch {reader : Reader} (hreader : PassesExpressions reader)
    {inputs : List String} {input : List UInt8} (hne : inputs ≠ [])
    (hinputs : ∀ e ∈ inputs, IsInput e) (h : Types inputs input) :
    (∀ settings, transcript settings input = greeting ++ "\n" ++ batch settings inputs) ∧
    ∀ args r, reader args = .ok r → r.expressions = [] → "--" ∉ args → ∀ other,
      run reader (args ++ "--" :: inputs) other = ⟨0, batch r.settings inputs⟩ ∧
        run reader args input = ⟨0, greeting ++ "\n" ++ batch r.settings inputs⟩ := by
  have htranscript (settings : Settings) :
      transcript settings input = greeting ++ "\n" ++ batch settings inputs := by
    rw [transcript, replies_of_types h hinputs]
  refine ⟨htranscript, ?_⟩
  intro args r hargs hnone hsep other
  have hexpressions : (r.addExpressions inputs).expressions = inputs := by
    rw [Request.addExpressions, hnone, List.nil_append]
  constructor
  · rw [run_of_ok (hreader args r hargs hsep inputs), Request.outcome, hexpressions,
      if_neg (by simpa using hne)]
    rfl
  · rw [run_of_ok hargs, Request.outcome, hnone, htranscript]
    rfl

variable {r r' : Request} {args : List String}

theorem eq_separator_of_ofText {text : String} (h : Argument.ofText text = .separator) :
    text = "--" := by
  rw [Argument.ofText] at h
  split at h
  all_goals first
    | cases h
    | skip
  · next hlist => exact String.toList_inj.1 hlist
  · repeat' split at h
    all_goals cases h

theorem read_append_separator (h : r.read args = .ok r') (hsep : "--" ∉ args)
    (texts : List String) : r.read (args ++ "--" :: texts) = .ok (r'.addExpressions texts) := by
  have hrest {arg : String} {args : List String} (h : "--" ∉ arg :: args) : "--" ∉ args :=
    fun hmem => h (List.mem_cons_of_mem arg hmem)
  fun_induction Request.read r args with
  | case1 r =>
    cases h
    have hof : Argument.ofText "--" = .separator := by decide
    rw [List.nil_append, Request.read.eq_def]
    simp only [hof]
  | case2 r arg args text harg ih =>
    rw [List.cons_append, Request.read.eq_def]
    simp only [harg]
    exact ih h (hrest hsep)
  | case3 r arg args harg => exact absurd (eq_separator_of_ofText harg ▸ List.mem_cons_self) hsep
  | case7 r arg args harg hfolds ih =>
    rw [List.cons_append, Request.read.eq_def]
    simp only [harg, hfolds, Bool.false_eq_true, if_false]
    exact ih h (hrest hsep)
  | case8 r arg args text harg r' hbinding ih =>
    rw [List.cons_append, Request.read.eq_def]
    simp only [harg, hbinding]
    exact ih h (hrest hsep)
  | case11 r arg harg text args value r' hbinding htext ih =>
    rw [List.cons_append, List.cons_append, Request.read.eq_def]
    simp only [harg, hbinding, htext]
    exact ih h (hrest (hrest hsep))
  | _ => cases h

theorem passesExpressions_readArguments : PassesExpressions readArguments :=
  fun _ _ h hsep => read_append_separator h hsep

theorem transcript_eq_batch_of_two :
    let inputs := ["x + 1", "2 ++"]
    let input := bytes ("\t " ++ "x + 1" ++ "\r") ++ newline :: (bytes " " ++ newline ::
      (bytes ("" ++ "2 ++" ++ "") ++ newline :: (bytes " quit" ++ [newline, 0xFF])))
    let output := "[Echo] x + 1\n[Parse] 3\n[Eval] 3\n[Echo] 2 ++\n          ^\n" ++
      "[Error] unexpected token \"+\" at 3..4\n"
    PassesExpressions readArguments ∧ inputs ≠ [] ∧ (∀ e ∈ inputs, IsInput e) ∧
      Types inputs input ∧
      run readArguments ["--fold", "-b", "x=2", "--", "x + 1", "2 ++"] [] = ⟨0, output⟩ ∧
      run readArguments ["--fold", "-b", "x=2"] input = ⟨0, greeting ++ "\n" ++ output⟩ := by
  intro inputs input output
  have hinputs : ∀ e ∈ inputs, IsInput e := by
    simp only [inputs, List.forall_mem_cons]
    exact ⟨⟨by decide, by decide, by decide, by decide⟩,
      ⟨by decide, by decide, by decide, by decide⟩, by simp⟩
  have htypes : Types (["x + 1"] ++ ([] ++ (["2 ++"] ++ []))) input := by
    have hblank {text : String} (h : text.toList.all Text.isBlank = true) :
        Text.Blank text.toList := List.all_eq_true.1 h
    refine .line (by decide) (.input (hblank rfl) (hblank rfl)) ?_
    refine .line (by decide) (.nothing (hblank rfl)) ?_
    refine .line (by decide) (.input (hblank rfl) (hblank rfl)) ?_
    refine .ends (by decide) (by decide +kernel) ?_
    rintro b ⟨⟩
    rfl
  have hargs : readArguments ["--fold", "-b", "x=2"] = .ok ⟨[("x", 2.0)], true, []⟩ := by
    have hfold : Argument.ofText "--fold" = .fold := by decide
    have hbind : Argument.ofText "-b" = .binding none := by decide
    have hvalue : Argument.ofText "x=2" = .expression "x=2" := by decide
    have hpair : Bindings.readPair? "x=2" = some ("x", 2.0) := by decide +kernel
    rw [readArguments, Request.read.eq_def]
    simp only [hfold]
    rw [Request.read.eq_def]
    simp only [hbind, hvalue, Request.addBinding, hpair]
    rfl
  have houtput : batch ⟨Bindings.ofPairs [("x", 2.0)], true⟩ inputs = output := by decide +kernel
  obtain ⟨-, hrun⟩ :=
    transcript_eq_batch passesExpressions_readArguments (List.cons_ne_nil _ _) hinputs htypes
  obtain ⟨hbatch, hsession⟩ := hrun _ _ hargs rfl (by decide) []
  rw [← houtput]
  exact ⟨passesExpressions_readArguments, List.cons_ne_nil _ _, hinputs, htypes, hbatch, hsession⟩

end CommandLine

end Formula
