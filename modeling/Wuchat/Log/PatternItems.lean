/-
# The items of a pattern

What `init` should make of the elements of a pattern (`expected`): a run of characters is one string,
`%%` is a percent sign, a directive is its item, and every date has its own format or the default.

It makes that of a pattern exactly when there is no `%%`, for which it finds no item and reports an
error, and when the formats of the dates agree with `data_format`, in which they all come together.  The texts are
printed if besides no date is too long for its buffer (`init_items_iff`).
-/

import Wuchat.Log.Patterns

namespace Wuchat
namespace Log
namespace LogFormatter

open Foundation
open Http (decimal length_decimal_le)

/-- The item of a directive, as `log.h` lists them; `%%` is a percent sign. -/
def documented (c : UInt8) : FormatItem :=
  if c = 109 then .message
  else if c = 112 then .level
  else if c = 99 then .loggerName
  else if c = 114 then .elapse
  else if c = 102 then .file
  else if c = 108 then .line
  else if c = 116 then .threadId
  else if c = 98 then .fiberId
  else if c = 110 then .threadName
  else if c = 84 then .tab
  else if c = 78 then .newLine
  else .string [37]

/-- The element is a character, a date, `%%`, or `%x` with `x` one of `m p c r f l t b n N T`. -/
def Element.Documented : Element → Prop
  | directive c => c = 37 ∨ c ∈ str "mpcrfltbnNT"
  | _ => True

/-- Whether an element is documented can be computed. -/
instance : (e : Element) → Decidable e.Documented
  | .literal _ => .isTrue trivial
  | .directive c => inferInstanceAs (Decidable (c = 37 ∨ c ∈ str "mpcrfltbnNT"))
  | .date _ => .isTrue trivial

/-- The string of a run of characters. -/
def runItems (run : Bytes) : List FormatItem := if run.isEmpty then [] else [.string run]

/-- The items of the elements behind a run of characters, for the formats of the dates. -/
def itemsWith (format : Option Bytes → Bytes) : Bytes → List Element → List FormatItem
  | run, [] => runItems run
  | run, .literal c :: es => itemsWith format (run ++ [c]) es
  | run, .directive c :: es => runItems run ++ documented c :: itemsWith format [] es
  | run, .date fmt :: es => runItems run ++ .time (format fmt) :: itemsWith format [] es

/-- The format of a date: its own, or the default. -/
def ownFormat (fmt : Option Bytes) : Bytes := timeFormat (fmt.getD [])

/-- **The items of a pattern**, each date with its own format. -/
def expected (es : List Element) : List FormatItem := itemsWith ownFormat [] es

/-- The text of a directive for an event, as `log.h` lists them. -/
def directiveText (event : LogEvent) (c : UInt8) : Bytes :=
  if c = 109 then event.m_ss
  else if c = 112 then event.m_level.ToString
  else if c = 99 then event.m_loggerName
  else if c = 114 then decimal event.m_elapse.toNat
  else if c = 102 then cstr event.m_file
  else if c = 108 then signed event.m_line
  else if c = 116 then decimal event.m_threadId.toNat
  else if c = 98 then decimal event.m_fiberId.toNat
  else if c = 110 then event.m_threadName
  else if c = 84 then [9]
  else if c = 78 then [10]
  else [37]

/-- The text of an element for an event. -/
def Element.print (strftime : Bytes → UInt64 → Bytes) (event : LogEvent) : Element → Bytes
  | literal c => [c]
  | directive c => directiveText event c
  | date fmt => strftime (cstr (ownFormat fmt)) event.m_time

/-- **The dates fit** into a buffer of 64 bytes with their terminator, for every time. -/
def DatesFit (strftime : Bytes → UInt64 → Bytes) (es : List Element) : Prop :=
  ∀ fmt, .date fmt ∈ es → ∀ time, (strftime (cstr (ownFormat fmt)) time).length ≤ 63

/-- The formats of all dates, one behind the other. -/
def dataFormat (es : List Element) : Bytes :=
  es.flatMap fun e => match e with
    | .date fmt => fmt.getD []
    | _ => []

/-- **The formats agree**: every date's own format is the one of all of them. -/
def FormatsAgree (es : List Element) : Prop := ∀ fmt, .date fmt ∈ es → ownFormat fmt = timeFormat (dataFormat es)

/-! ### The pieces of the elements -/

/-- The pieces of the elements behind `tmp`. -/
def pieces : Bytes → List Element → List Piece
  | tmp, [] => flush tmp
  | tmp, .literal c :: es => pieces (tmp ++ [c]) es
  | tmp, .directive c :: es => flush tmp ++ .template c :: pieces [] es
  | tmp, .date _ :: es => flush tmp ++ .template 100 :: pieces [] es

/-- What the elements leave behind the scan. -/
theorem foldl_after (es : List Element) (s : Scan) :
    (es.foldl Scan.after s).patterns ++ flush (es.foldl Scan.after s).tmp = s.patterns ++ pieces s.tmp es ∧
      (es.foldl Scan.after s).data_format = s.data_format ++ dataFormat es := by
  induction es generalizing s with
  | nil => exact ⟨rfl, (List.append_nil _).symm⟩
  | cons e es ih =>
    obtain ⟨hpieces, hformat⟩ := ih (s.after e)
    rw [List.foldl_cons, hpieces, hformat]
    cases e with
    | literal c => exact ⟨rfl, rfl⟩
    | directive c => exact ⟨by simp [Scan.after, pieces], rfl⟩
    | date fmt => exact ⟨by simp [Scan.after, pieces], by simp [Scan.after, dataFormat]⟩

/-- The text before an element becomes one item for each of its characters. -/
theorem addItems_flush (data_format tmp : Bytes) (rest : List Piece) :
    addItems data_format (flush tmp ++ rest) =
      (runItems tmp ++ (addItems data_format rest).1, (addItems data_format rest).2) := by
  unfold flush runItems
  split
  · rfl
  · rfl

/-- A directive of the list has its item. -/
theorem s_format_items_documented {c : UInt8} (h : c ∈ str "mpcrfltbnNT") :
    c ≠ 100 ∧ c ≠ 37 ∧ s_format_items c [c] = some (documented c) := by
  have hall : ∀ c ∈ str "mpcrfltbnNT", c ≠ 100 ∧ c ≠ 37 ∧ s_format_items c [c] = some (documented c) := by
    decide +kernel
  exact hall c h

/-- Without `%%`, every element has its item, and the dates have `data_format`. -/
theorem addItems_pieces (data_format : Bytes) {es : List Element} (hdoc : ∀ e ∈ es, e.Documented)
    (hescape : .directive 37 ∉ es) (tmp : Bytes) :
    addItems data_format (pieces tmp es) = (itemsWith (fun _ => timeFormat data_format) tmp es, false) := by
  induction es generalizing tmp with
  | nil =>
    have h := addItems_flush data_format tmp []
    rw [List.append_nil] at h
    rw [pieces, h]
    simp [addItems, itemsWith]
  | cons e es ih =>
    obtain ⟨he, hes⟩ := List.forall_mem_cons.mp hdoc
    rw [List.mem_cons, not_or] at hescape
    have hrest := ih hes hescape.2
    cases e with
    | literal c => exact hrest (tmp ++ [c])
    | directive c =>
      have hknown : c ∈ str "mpcrfltbnNT" := he.resolve_left fun h => hescape.1 (by rw [h])
      obtain ⟨hdate, -, hitem⟩ := s_format_items_documented hknown
      rw [pieces, addItems_flush, addItems, if_neg hdate, hitem]
      simp [hrest, itemsWith]
    | date fmt =>
      rw [pieces, addItems_flush, addItems, if_pos rfl]
      simp [hrest, itemsWith]

/-- A piece without an item is an error, and one behind a piece stays one. -/
theorem addItems_template (data_format : Bytes) {c : UInt8} {rest : List Piece}
    (h : c = 37 ∨ (addItems data_format rest).2 = true) : (addItems data_format (.template c :: rest)).2 = true := by
  rw [addItems]
  split
  · rename_i hdate
    exact h.resolve_left fun hpercent => absurd (hdate.symm.trans hpercent) (by decide)
  · split
    · rfl
    · rename_i item hitem
      refine h.resolve_left fun hpercent => ?_
      subst hpercent
      cases hitem

/-- With `%%` there is an error. -/
theorem addItems_escape (data_format : Bytes) {es : List Element} (hescape : .directive 37 ∈ es) (tmp : Bytes) :
    (addItems data_format (pieces tmp es)).2 = true := by
  induction es generalizing tmp with
  | nil => cases hescape
  | cons e es ih =>
    cases e with
    | literal c => exact ih ((List.mem_cons.mp hescape).resolve_left nofun) (tmp ++ [c])
    | directive c =>
      rw [pieces, addItems_flush]
      refine addItems_template data_format ?_
      rcases List.mem_cons.mp hescape with heq | hrest
      · exact .inl (Element.directive.inj heq).symm
      · exact .inr (ih hrest [])
    | date fmt =>
      rw [pieces, addItems_flush]
      exact addItems_template data_format (.inr (ih ((List.mem_cons.mp hescape).resolve_left nofun) []))

/-- **What `init` makes of the elements.** -/
theorem init_texts {es : List Element} (hes : Valid es []) :
    init (texts es) = .ended ⟨(addItems (dataFormat es) (pieces [] es)).2, texts es,
      (addItems (dataFormat es) (pieces [] es)).1⟩ := by
  have hscan := scan_pattern (show Valid es Tail.nothing.text from hes) trivial
  rw [show texts es ++ Tail.nothing.text = texts es from List.append_nil _] at hscan
  obtain ⟨hpieces, hformat⟩ := foldl_after es .start
  rw [init, hscan]
  dsimp only [Tail.ending]
  rw [hpieces, hformat]
  rfl

/-! ### The formats of the dates -/

/-- The items are the same exactly when the formats of the dates are. -/
theorem itemsWith_inj {f g : Option Bytes → Bytes} (es : List Element) (run : Bytes) :
    itemsWith f run es = itemsWith g run es ↔ ∀ fmt, .date fmt ∈ es → f fmt = g fmt := by
  induction es generalizing run with
  | nil => exact iff_of_true rfl nofun
  | cons e es ih =>
    cases e with
    | literal c => simpa [itemsWith] using ih (run ++ [c])
    | directive c => simpa [itemsWith] using ih []
    | date fmt =>
      simp only [itemsWith, List.append_cancel_left_eq, List.cons.injEq, FormatItem.time.injEq, ih [], List.mem_cons,
        Element.date.injEq]
      constructor
      · rintro ⟨hhead, hrest⟩ fmt' (rfl | hmem)
        · exact hhead
        · exact hrest fmt' hmem
      · intro h
        exact ⟨h fmt (.inl rfl), fun fmt' hmem => h fmt' (.inr hmem)⟩

/-! ### The texts -/

section Texts

variable (strftime : Bytes → UInt64 → Bytes) (event : LogEvent)

/-- The texts of some items, then of others. -/
theorem formatItems_append (items items' : List FormatItem) :
    formatItems strftime event (items ++ items') =
      (formatItems strftime event items).bind fun text =>
        (formatItems strftime event items').map fun texts => text ++ texts := by
  induction items with
  | nil => simp [formatItems]
  | cons i items ih =>
    rw [List.cons_append, formatItems, ih, formatItems]
    cases i.format strftime event with
    | none => rfl
    | some text =>
      cases formatItems strftime event items with
      | none => rfl
      | some texts =>
        cases formatItems strftime event items' with
        | none => rfl
        | some texts' => simp

/-- The items of plain text print it. -/
theorem formatItems_runItems (run : Bytes) : formatItems strftime event (runItems run) = some run := by
  unfold runItems
  cases run with
  | nil => rfl
  | cons c run => simp [formatItems, FormatItem.format]

/-- A documented directive prints what it stands for. -/
theorem format_documented (c : UInt8) : (documented c).format strftime event = some (directiveText event c) := by
  rw [documented, directiveText]
  simp only [apply_ite (FormatItem.format strftime event), apply_ite some]
  rfl

/-- **What the items print is the text of the elements**, if the dates fit. -/
theorem formatItems_expected {es : List Element} (hfit : DatesFit strftime es) (run : Bytes) :
    formatItems strftime event (itemsWith ownFormat run es) =
      some (run ++ es.flatMap (Element.print strftime event)) := by
  induction es generalizing run with
  | nil => simp [itemsWith, formatItems_runItems]
  | cons e es ih =>
    have hrest : DatesFit strftime es := fun fmt hmem => hfit fmt (List.mem_cons_of_mem e hmem)
    cases e with
    | literal c => simp [itemsWith, ih hrest, Element.print]
    | directive c =>
      rw [itemsWith, formatItems_append, formatItems_runItems, formatItems, format_documented, ih hrest]
      simp [Element.print]
    | date fmt =>
      have hlen := Nat.lt_succ_of_le (hfit fmt List.mem_cons_self event.m_time)
      have hbuf : (FormatItem.time (ownFormat fmt)).format strftime event =
          some ((Element.date fmt).print strftime event) := if_pos hlen
      rw [itemsWith, formatItems_append, formatItems_runItems, formatItems, hbuf, ih hrest]
      simp

/-- Every date has its item. -/
theorem time_mem_itemsWith {es : List Element} {fmt : Option Bytes} (h : .date fmt ∈ es) (format : Option Bytes → Bytes)
    (run : Bytes) : .time (format fmt) ∈ itemsWith format run es := by
  induction es generalizing run with
  | nil => cases h
  | cons e es ih =>
    cases e with
    | literal c => exact ih ((List.mem_cons.mp h).resolve_left nofun) (run ++ [c])
    | directive c =>
      have hrest := ih ((List.mem_cons.mp h).resolve_left nofun) []
      exact List.mem_append_right _ (List.mem_cons_of_mem _ hrest)
    | date fmt' =>
      refine List.mem_append_right _ ?_
      rcases List.mem_cons.mp h with heq | hmem
      · obtain rfl := Element.date.inj heq
        exact List.mem_cons_self
      · exact List.mem_cons_of_mem _ (ih hmem [])

/-- What is printed has found room for every item. -/
theorem isSome_of_formatItems {items : List FormatItem} {texts : Bytes}
    (h : formatItems strftime event items = some texts) : ∀ i ∈ items, (i.format strftime event).isSome = true := by
  induction items generalizing texts with
  | nil => exact nofun
  | cons i items ih =>
    obtain ⟨text, htext, h⟩ := Option.bind_eq_some_iff.mp h
    obtain ⟨texts', hrest, -⟩ := Option.bind_eq_some_iff.mp h
    rw [List.forall_mem_cons]
    exact ⟨by rw [htext]; rfl, ih hrest⟩

end Texts

/-- The time formats of some elements, then of others. -/
theorem dataFormat_append (es es' : List Element) : dataFormat (es ++ es') = dataFormat es ++ dataFormat es' :=
  List.flatMap_append

/-- No element has a time format. -/
theorem dataFormat_eq_nil {es : List Element} : dataFormat es = [] ↔ ∀ fmt, .date fmt ∈ es → fmt.getD [] = [] := by
  rw [dataFormat, List.flatMap_eq_nil_iff]
  constructor
  · exact fun h fmt hmem => h _ hmem
  · intro h e hmem
    cases e with
    | date fmt => exact h fmt hmem
    | _ => rfl

/-- A time format that is not empty is kept. -/
theorem timeFormat_of_ne {format : Bytes} (h : format ≠ []) : timeFormat format = format := by
  rw [timeFormat, List.isEmpty_eq_false_iff.mpr h]
  rfl

/-- The formats agree when no date has one, or only one date has one, and that is the default if there are
others. -/
theorem formatsAgree_iff (es : List Element) : FormatsAgree es ↔ (∀ fmt, .date fmt ∈ es → fmt.getD [] = []) ∨
    ∃ pre fmt post, es = pre ++ .date (some fmt) :: post ∧ fmt ≠ [] ∧
      ∀ fmt', .date fmt' ∈ pre ++ post → fmt'.getD [] = [] ∧ fmt = defaultFormat := by
  have hsplit : ∀ (pre : List Element) (fmt : Bytes) (post : List Element),
      dataFormat (pre ++ .date (some fmt) :: post) = dataFormat pre ++ (fmt ++ dataFormat post) :=
    fun pre fmt post => dataFormat_append pre (.date (some fmt) :: post)
  constructor
  · intro hagree
    by_cases hnone : ∀ fmt, .date fmt ∈ es → fmt.getD [] = []
    · exact .inl hnone
    · right
      obtain ⟨fmt, hmem, hne⟩ : ∃ fmt, .date (some fmt) ∈ es ∧ fmt ≠ [] := by
        simp only [not_forall] at hnone
        obtain ⟨fmt, hmem, hne⟩ := hnone
        cases fmt with
        | none => exact absurd rfl hne
        | some fmt => exact ⟨fmt, hmem, hne⟩
      obtain ⟨pre, post, rfl⟩ := List.append_of_mem hmem
      have hall : fmt = dataFormat pre ++ (fmt ++ dataFormat post) := by
        have hown := hagree (some fmt) hmem
        rw [ownFormat, Option.getD_some, timeFormat_of_ne hne, hsplit, timeFormat_of_ne (by simp [hne])] at hown
        exact hown
      have hlength := congrArg List.length hall
      rw [List.length_append, List.length_append] at hlength
      -- one format takes up all of `data_format`, so the others are empty
      have hpre : dataFormat pre = [] := List.length_eq_zero_iff.mp (by omega)
      have hpost : dataFormat post = [] := List.length_eq_zero_iff.mp (by omega)
      refine ⟨pre, fmt, post, rfl, hne, fun fmt' hmem' => ?_⟩
      have hempty : fmt'.getD [] = [] := by
        rcases List.mem_append.mp hmem' with h | h
        · exact dataFormat_eq_nil.mp hpre fmt' h
        · exact dataFormat_eq_nil.mp hpost fmt' h
      have hown := hagree fmt' (by
        rcases List.mem_append.mp hmem' with h | h
        · exact List.mem_append_left _ h
        · exact List.mem_append_right _ (List.mem_cons_of_mem _ h))
      rw [ownFormat, hempty, hsplit, ← hall, timeFormat_of_ne hne] at hown
      exact ⟨hempty, hown.symm⟩
  · rintro (hnone | ⟨pre, fmt, post, rfl, hne, hothers⟩) fmt' hmem
    · rw [ownFormat, hnone fmt' hmem, dataFormat_eq_nil.mpr hnone]
    · have hpre : dataFormat pre = [] := dataFormat_eq_nil.mpr fun g hg => (hothers g (List.mem_append_left _ hg)).1
      have hpost : dataFormat post = [] :=
        dataFormat_eq_nil.mpr fun g hg => (hothers g (List.mem_append_right _ hg)).1
      rw [hsplit, hpre, hpost, List.append_nil, List.nil_append, timeFormat_of_ne hne]
      rcases List.mem_append.mp hmem with h | h
      · obtain ⟨hempty, hdefault⟩ := hothers fmt' (List.mem_append_left _ h)
        rw [ownFormat, hempty, hdefault]
        rfl
      · rcases List.mem_cons.mp h with heq | h
        · obtain rfl := Element.date.inj heq
          exact timeFormat_of_ne hne
        · obtain ⟨hempty, hdefault⟩ := hothers fmt' (List.mem_append_right _ h)
          rw [ownFormat, hempty, hdefault]
          rfl

/-- An event at a time. -/
def eventAt (m_time : UInt64) : LogEvent where
  m_loggerName := str "root"
  m_level := .INFO
  m_ss := []
  m_file := []
  m_line := 0
  m_elapse := 0
  m_threadId := 0
  m_fiberId := 0
  m_time := m_time
  m_threadName := []

/-- **`init` makes its items of a pattern, and `format` prints them, exactly when there is no `%%`, the
formats agree and the dates fit**: no error, the items of the elements in their order, and their texts for
every event. -/
theorem init_items_iff (strftime : Bytes → UInt64 → Bytes) (es : List Element) (hes : Valid es [])
    (hdoc : ∀ e ∈ es, e.Documented) :
    (∃ f, init (texts es) = .ended f ∧ f.m_error = false ∧ f.m_items = expected es ∧
      ∀ event, f.format strftime event = some (es.flatMap (Element.print strftime event))) ↔
    .directive 37 ∉ es ∧ FormatsAgree es ∧ DatesFit strftime es := by
  rw [init_texts hes]
  constructor
  · rintro ⟨f, hf, herror, hitems, hformat⟩
    obtain rfl := Ending.ended.inj hf
    have hescape : .directive 37 ∉ es := by
      intro hmem
      rw [addItems_escape _ hmem] at herror
      cases herror
    refine ⟨hescape, fun fmt hmem => ?_, fun fmt hmem time => ?_⟩
    · rw [addItems_pieces _ hdoc hescape] at hitems
      exact ((itemsWith_inj es []).mp hitems fmt hmem).symm
    · have hprinted := hformat (eventAt time)
      rw [LogFormatter.format, hitems] at hprinted
      have hroom := isSome_of_formatItems _ _ hprinted _ (time_mem_itemsWith hmem ownFormat [])
      exact Nat.le_of_lt_succ (Option.isSome_ite.mp hroom)
  · rintro ⟨hescape, hagree, hfit⟩
    rw [addItems_pieces _ hdoc hescape]
    have hitems : itemsWith (fun _ => timeFormat (dataFormat es)) [] es = expected es :=
      (itemsWith_inj es []).mpr fun fmt hmem => (hagree fmt hmem).symm
    refine ⟨_, rfl, rfl, hitems, fun event => ?_⟩
    dsimp only [LogFormatter.format]
    rw [hitems]
    exact formatItems_expected strftime event hfit []

/-- The elements of the pattern of `LogFormatter()`. -/
def defaultElements : List Element :=
  .date (some defaultFormat) :: .directive 84 :: .literal 91 :: .directive 114 :: .literal 109 :: .literal 115 ::
    .literal 93 :: .directive 84 :: .directive 116 :: .directive 84 :: .directive 110 :: .directive 84 ::
    .directive 98 :: .directive 84 :: .literal 91 :: .directive 112 :: .literal 93 :: .directive 84 :: .literal 91 ::
    .directive 99 :: .literal 93 :: .directive 84 :: .directive 102 :: .literal 58 :: .directive 108 ::
    .directive 84 :: .directive 109 :: .directive 78 :: []

/-- Two digits. -/
def twoDigits (n : Nat) : Bytes := [UInt8.ofNat (48 + n / 10 % 10), UInt8.ofNat (48 + n % 10)]

/-- The year, the month and the day of a number of days after 1970-01-01; the years are counted from March. -/
def civil (days : Nat) : Nat × Nat × Nat :=
  let era := (days + 719468) / 146097
  let doe := (days + 719468) % 146097
  let yoe := (doe - doe / 1460 + doe / 36524 - doe / 146096) / 365
  let doy := doe - (365 * yoe + yoe / 4 - yoe / 100)
  let mp := (5 * doy + 2) / 153
  let month := if mp < 10 then mp + 3 else mp - 9
  (yoe + era * 400 + (if month ≤ 2 then 1 else 0), month, doy - (153 * mp + 2) / 5 + 1)

/-- What `strftime` makes of `%Y-%m-%d %H:%M:%S` in UTC. -/
def utcDate (time : UInt64) : Bytes :=
  let (year, month, day) := civil (time.toNat / 86400)
  let seconds := time.toNat % 86400
  decimal year ++ str "-" ++ twoDigits month ++ str "-" ++ twoDigits day ++ str " " ++
    twoDigits (seconds / 3600) ++ str ":" ++ twoDigits (seconds / 60 % 60) ++ str ":" ++ twoDigits (seconds % 60)

example : utcDate 1652949059 = str "2022-05-19 08:30:59" ∧ utcDate 951782400 = str "2000-02-29 00:00:00" := by decide

/-- The years of the clock have at most 20 digits. -/
theorem length_utcDate (time : UInt64) : (utcDate time).length ≤ 63 := by
  have hyear : (civil (time.toNat / 86400)).1 < 10 ^ 20 := by
    have htime : time.toNat < 18446744073709551616 := time.toNat_lt
    unfold civil
    dsimp only
    repeat' split
    all_goals omega
  have hlen := length_decimal_le hyear (by decide)
  have htexts : (str "-").length = 1 ∧ (str " ").length = 1 ∧ (str ":").length = 1 := by decide
  simp only [utcDate, List.length_append, twoDigits, List.length_cons, List.length_nil]
  omega

/-- The statement at the default pattern. -/
theorem init_items_iff_default : texts defaultElements = defaultPattern ∧
    ∃ f, init (texts defaultElements) = .ended f ∧ f.m_error = false ∧ f.m_items = expected defaultElements ∧
      ∀ event, f.format (fun _ => utcDate) event =
        some (defaultElements.flatMap (Element.print (fun _ => utcDate) event)) := by
  have hes : Valid defaultElements [] := by
    simp only [Valid, defaultElements, Element.Before]
    decide
  have hdoc : ∀ e ∈ defaultElements, e.Documented := by decide
  have htexts : texts defaultElements = defaultPattern := by
    rw [show defaultPattern = _ from str_ofList _]
    decide
  refine ⟨htexts, (init_items_iff (fun _ => utcDate) defaultElements hes hdoc).mpr ⟨by decide, ?_, ?_⟩⟩
  · intro fmt hmem
    have hfmt : fmt = some defaultFormat := by
      simpa [defaultElements] using hmem
    rw [hfmt]
    decide
  · exact fun fmt hmem time => length_utcDate time

/-- Two dates with a format each. -/
def twoDates : List Element := [.date (some (str "%Y")), .literal 32, .date (some (str "%H"))]

/-- `5%%`. -/
def fivePercent : List Element := [.literal 53, .directive 37]

/-- A date with a format of 64 characters, which stand for themselves. -/
def longDate : List Element := [.date (some (List.replicate 64 97))]

/-- **Two formats run together**, `%%` is an error, and a long date is not printed: both dates get `%Y%H`, the percent
sign has no item, and the 64 characters do not fit into the buffer. -/
theorem formats_run_together :
    (Valid twoDates [] ∧ (∀ e ∈ twoDates, e.Documented) ∧
      expected twoDates = [.time (str "%Y"), .string (str " "), .time (str "%H")] ∧
      init (str "%d\x7b%Y\x7d %d\x7b%H\x7d") =
        .ended ⟨false, texts twoDates, [.time (str "%Y%H"), .string (str " "), .time (str "%Y%H")]⟩) ∧
    (Valid fivePercent [] ∧ (∀ e ∈ fivePercent, e.Documented) ∧
      expected fivePercent = [.string (str "5"), .string (str "%")] ∧
      init (str "5%%") = .ended ⟨true, texts fivePercent, [.string (str "5")]⟩) ∧
    (Valid longDate [] ∧ (∀ e ∈ longDate, e.Documented) ∧
      ∃ f, init (texts longDate) = .ended f ∧ ∀ event, f.format (fun fmt _ => fmt) event = none) := by
  refine ⟨⟨?_, by decide, by decide, by decide⟩, ⟨?_, by decide, by decide, by decide⟩, ?_, by decide,
    ⟨false, texts longDate, [.time (List.replicate 64 97)]⟩, by decide, fun event => rfl⟩
  · simp only [Valid, twoDates, Element.Before]
    decide
  · simp only [Valid, fivePercent, Element.Before]
    decide
  · simp only [Valid, longDate, Element.Before]
    decide

end LogFormatter
end Log
end Wuchat
