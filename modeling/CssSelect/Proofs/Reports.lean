import CssSelect.Proofs.Warning
import CssSelect.Proofs.Selector.Announced
import CssSelect.Proofs.Selector.Reparse
import CssSelect.Proofs.Text.Lines

/-!
What is printed about the pseudo selectors of texts that are read one after the other with one log.
The text of a warning tells the announcements apart, so one line is printed for each of them when it
comes for the first time, and none later. Names are printed as they are, so a line feed in a name
goes into the line.
-/
namespace CssSelect

namespace Announcement

/-- Behind what they have in common the messages go on with different letters or with the name. -/
theorem message_injective : Function.Injective fun announcement : Announcement =>
    announcement.warning.message := by
  have ofClass : ∀ name, (pseudoClass name).warning.message =
      "pseudo-class ':" ++ name ++ "' is not evaluated and always matches" := fun _ => rfl
  have ofElement : ∀ name, (pseudoElement name).warning.message =
      "pseudo-element '::" ++ name ++ "' never matches a tree node" := fun _ => rfl
  intro first second same
  cases first <;> cases second <;>
    simp only [ofClass, ofElement, ← String.toList_inj, String.toList_append] at same
  · exact congrArg pseudoClass (String.toList_inj.mp (by simpa using same))
  · simp at same
  · simp at same
  · exact congrArg pseudoElement (String.toList_inj.mp (by simpa using same))

theorem component_warning (announcement : Announcement) :
    announcement.warning.component = "Selectors" := by
  cases announcement <;> rfl

/-- The log tells all announcements from each other, as all of them come from one component. -/
theorem key_warning_eq_iff (first second : Announcement) :
    first.warning.key = second.warning.key ↔ first = second := by
  refine ⟨fun same => message_injective ?_, fun same => by rw [same]⟩
  rw [← String.toList_inj, Warning.toList_key, Warning.toList_key, component_warning,
    component_warning] at same
  exact String.toList_inj.mp (by simpa using same)

/-- The name of a pseudo selector. -/
def name : Announcement → String
  | pseudoClass name | pseudoElement name => name

/-- What is printed about a pseudo selector, in yellow and up to the line feed behind it. -/
def notice : Announcement → String
  | pseudoClass name =>
    "\x1b[33m[Sift Selectors] ⚠ pseudo-class ':" ++ name ++
      "' is not evaluated and always matches\x1b[39m"
  | pseudoElement name =>
    "\x1b[33m[Sift Selectors] ⚠ pseudo-element '::" ++ name ++
      "' never matches a tree node\x1b[39m"

/-- The line of a warning is its notice. The message is framed as a whole there, and written out here,
so the same pieces are put together in another order. -/
theorem line_warning (announcement : Announcement) :
    announcement.warning.line = announcement.notice ++ "\n" := by
  have ofMessage : ∀ before name behind : String,
      "\x1b[33m[Sift " ++ "Selectors" ++ "] ⚠ " ++ (before ++ name ++ behind) ++ "\x1b[39m\n" =
        "\x1b[33m[Sift Selectors] ⚠ " ++ before ++ name ++ (behind ++ "\x1b[39m") ++ "\n" := by
    intro before name behind
    have start : "\x1b[33m[Sift " ++ "Selectors" ++ "] ⚠ " = "\x1b[33m[Sift Selectors] ⚠ " := by
      decide +kernel
    have stop : "\x1b[39m" ++ "\n" = "\x1b[39m\n" := by decide +kernel
    rw [start, ← stop]
    simp only [String.append_assoc]
  cases announcement with
  | pseudoClass name =>
    exact ofMessage "pseudo-class ':" name "' is not evaluated and always matches"
  | pseudoElement name =>
    exact ofMessage "pseudo-element '::" name "' never matches a tree node"

/-- Line feeds come in with the name only. -/
theorem count_feed_notice (announcement : Announcement) :
    announcement.notice.toList.count '\n' = announcement.name.toList.count '\n' := by
  cases announcement with
  | pseudoClass name => exact Text.count_feed_between (by decide +kernel) (by decide +kernel) name
  | pseudoElement name => exact Text.count_feed_between (by decide +kernel) (by decide +kernel) name

/-- What is printed about announcements: the notice of each, in their order, with a line feed behind
it. A name with line feeds takes that many lines more. -/
structure NoticesPrinted (announcements : List Announcement) (printed : String) : Prop where
  text : printed = Text.joinEnded (announcements.map notice)
  length_lines : (Text.lines printed.toList).length =
    announcements.length + Text.feeds (announcements.map name)
  as_many_lines_iff : (Text.lines printed.toList).length = announcements.length ↔
    ∀ announcement ∈ announcements, '\n' ∉ announcement.name.toList
  lines : (∀ announcement ∈ announcements, '\n' ∉ announcement.name.toList) →
    Text.lines printed.toList = announcements.map fun announcement => announcement.notice.toList

theorem feeds_notices (announcements : List Announcement) :
    Text.feeds (announcements.map notice) = Text.feeds (announcements.map name) := by
  induction announcements with
  | nil => rfl
  | cons announcement announcements ih =>
    rw [List.map_cons, List.map_cons, Text.feeds, Text.feeds, ih, announcement.count_feed_notice]

theorem noticesPrinted (announcements : List Announcement) :
    NoticesPrinted announcements (Text.joinEnded (announcements.map notice)) := by
  have oneLine_iff : ∀ announcement ∈ announcements,
      '\n' ∉ announcement.notice.toList ↔ '\n' ∉ announcement.name.toList := by
    intro announcement _
    rw [← List.count_eq_zero, ← List.count_eq_zero, announcement.count_feed_notice]
  obtain ⟨asMany, lines⟩ := Text.joinEnded_by_lines oneLine_iff
  refine ⟨rfl, ?_, asMany, lines⟩
  rw [Text.length_lines_joinEnded, List.length_map, feeds_notices]

/-- A name in small letters; the four names of pseudo-elements are none of pseudo-classes. -/
def WellFormed : Announcement → Prop
  | pseudoClass name => name.toList.any Char.isUpper = false ∧ name ∉ Parser.singleColonElements
  | pseudoElement name => name.toList.any Char.isUpper = false

end Announcement

namespace WarningLog

/-! ## One log for several texts -/

/-- Gives the warnings about one text after the other: the log afterwards, and the printed text. -/
def warnAboutAll (log : WarningLog) : List String → WarningLog × String
  | [] => (log, "")
  | text :: texts =>
    let (log, lines) := log.warnAbout text
    let (log, more) := log.warnAboutAll texts
    (log, lines ++ more)

theorem warnAll_append (log : WarningLog) (first second : List Warning) :
    log.warnAll (first ++ second) = (((log.warnAll first).1.warnAll second).1,
      (log.warnAll first).2 ++ ((log.warnAll first).1.warnAll second).2) := by
  induction first generalizing log with
  | nil => simp [warnAll]
  | cons warning first ih => simp [warnAll, ih, String.append_assoc]

/-- Texts one after the other are warned about like one text that announces what all of them do. -/
theorem warnAboutAll_eq (log : WarningLog) (texts : List String) :
    log.warnAboutAll texts =
      log.warnAll ((texts.flatMap SelectorList.announced).map Announcement.warning) := by
  induction texts generalizing log with
  | nil => rfl
  | cons text texts ih =>
    rw [List.flatMap_cons, List.map_append, warnAll_append, warnAboutAll]
    simp only [ih]
    rfl

/-- The log knows the warnings about these announcements and about no others. -/
def Knows (log : WarningLog) (given : List Announcement) : Prop :=
  ∀ announcement : Announcement, log.contains announcement.warning = true ↔ announcement ∈ given

theorem knows_empty : empty.Knows [] :=
  fun _ => iff_of_false not_contains_empty List.not_mem_nil

theorem Knows.warn {log : WarningLog} {given : List Announcement} (knows : log.Knows given)
    (announcement : Announcement) : (log.warn announcement.warning).1.Knows (announcement :: given) := by
  intro other
  rw [contains_warn, Announcement.key_warning_eq_iff, knows other, List.mem_cons, eq_comm]

/-- Of the announcements that are new to the log, each is printed where it comes first. The induction
is on the announcements; with each of them the log knows one more, or the same ones as before. -/
theorem Knows.printed {log : WarningLog} {given : List Announcement} (knows : log.Knows given)
    (announcements : List Announcement) :
    (log.warnAll (announcements.map Announcement.warning)).2 =
      Text.joinEnded ((announcements.filter (· ∉ given)).eraseDups.map Announcement.notice) := by
  induction announcements generalizing log given with
  | nil => rfl
  | cons announcement announcements ih =>
    by_cases known : announcement ∈ given
    · have silent : log.warn announcement.warning = (log, "") := by
        rw [WarningLog.warn, if_pos ((knows announcement).mpr known)]
      rw [List.filter_cons_of_neg (by simpa using known), ← ih knows, List.map_cons, warnAll, silent]
      exact String.empty_append
    · have printed : (log.warn announcement.warning).2 = announcement.notice ++ "\n" := by
        rw [WarningLog.warn, if_neg ((knows announcement).not.mpr known), announcement.line_warning]
      have fresh : announcements.filter (· ∉ announcement :: given) =
          (announcements.filter (· ∉ given)).filter fun other => !other == announcement := by
        rw [List.filter_filter]
        exact List.filter_congr fun other _ => by simp [beq_eq_decide]
      rw [List.filter_cons_of_pos (by simpa using known), List.eraseDups_cons, ← fresh,
        List.map_cons, List.map_cons, warnAll, Text.joinEnded_cons, ← ih (knows.warn announcement),
        ← printed]

end WarningLog

namespace SelectorList

/-! ## What a text announces -/

theorem wellFormed_of_mem_conditions {list : SelectorList} (wellFormed : list.WellFormed)
    {condition : SubclassSelector} (member : condition ∈ list.conditions) : condition.WellFormed := by
  obtain ⟨selector, listed, inside⟩ := List.mem_flatMap.mp member
  have parts := wellFormed.members selector listed
  rcases List.mem_append.mp inside with inHead | inTail
  · exact parts.head.subclasses condition inHead
  · obtain ⟨link, joined, inLink⟩ := List.mem_flatMap.mp inTail
    exact (parts.tail link joined).subclasses condition inLink

theorem wellFormed_of_mem_announcements {list : SelectorList} (wellFormed : list.WellFormed)
    {announcement : Announcement} (member : announcement ∈ list.announcements) :
    announcement.WellFormed := by
  rw [announcements, announcements_eq] at member
  obtain ⟨condition, listed, announced⟩ := List.mem_flatMap.mp member
  have sound := wellFormed_of_mem_conditions wellFormed listed
  rcases condition with _ | _ | _ | pseudo | pseudo
  · cases announced
  · cases announced
  · cases announced
  · obtain rfl := List.mem_singleton.mp announced
    exact ⟨sound.1.noCapital, sound.2⟩
  · obtain rfl := List.mem_singleton.mp announced
    exact sound.noCapital

/-- What reading a text announces. A list announces its pseudo selectors from left to right, and a
text that is refused those of a list in front of the error; whatever list stands at the beginning of
a text, if only its last condition ends there, all its pseudo selectors are announced. -/
structure AnnouncesWhatIsRead (text : String) : Prop where
  of_list : ∀ list, parse text = .ok list → announced text = list.announcements
  of_error : ∀ error, parse text = .error error →
    announced text = [] ∨ ∃ (whole rest : String) (list : SelectorList), text = whole ++ rest ∧
      list.Opens whole rest ∧ whole.utf8ByteSize ≤ error.position ∧
      announced text = list.announcements
  of_opens : ∀ (whole rest : String) (list : SelectorList), text = whole ++ rest →
    list.Opens whole rest → list.announcements <+: announced text
  wellFormed : ∀ announcement ∈ announced text, announcement.WellFormed

theorem announcesWhatIsRead (text : String) : AnnouncesWhatIsRead text where
  of_list _ read := announced_of_parse read
  of_error _ failed := announced_of_parse_error failed
  of_opens := by
    rintro whole rest list rfl opens
    exact prefix_announced opens
  wellFormed := by
    have ofParsed : ∀ whole list, parse whole = .ok list →
        ∀ announcement ∈ list.announcements, announcement.WellFormed := fun whole list read _ =>
      wellFormed_of_mem_announcements (wellFormed_of_derives (derives_of_parse read))
    cases read : parse text with
    | ok list =>
      rw [announced_of_parse read]
      exact ofParsed text list read
    | error error =>
      rcases announced_of_parse_error read with silent | ⟨whole, _, list, _, opens, _, shown⟩
      · simp [silent]
      · rw [shown]
        exact ofParsed whole list opens.parsed

/-- Warnings are exact. When texts are read one after the other, beginning with an empty log, one
line is printed for each pseudo-class and each pseudo-element that is read, by its name, in the
order in which they are read first. The line is the notice with a line feed behind it; it is broken
only by line feeds in the name itself. -/
theorem warnings_exact (texts : List String) :
    Announcement.NoticesPrinted (texts.flatMap announced).eraseDups
      (WarningLog.empty.warnAboutAll texts).2 ∧
    ∀ text, AnnouncesWhatIsRead text := by
  refine ⟨?_, announcesWhatIsRead⟩
  rw [WarningLog.warnAboutAll_eq, WarningLog.knows_empty.printed,
    List.filter_eq_self.mpr fun _ _ => by simp]
  exact Announcement.noticesPrinted _

/-- `::x` is not read to its end, and `:hover` is read twice. -/
theorem warnings_exact_hover :
    (WarningLog.empty.warnAboutAll [":Hover::x(", "b:before(y), :hover%:focus"]).2 =
      "\x1b[33m[Sift Selectors] ⚠ pseudo-class ':hover' is not evaluated and always matches\x1b[39m\n" ++
      "\x1b[33m[Sift Selectors] ⚠ pseudo-element '::before' never matches a tree node\x1b[39m\n" ∧
    (Text.lines (WarningLog.empty.warnAboutAll
      [":Hover::x(", "b:before(y), :hover%:focus"]).2.toList).length = 2 := by
  have once : ([":Hover::x(", "b:before(y), :hover%:focus"].flatMap announced).eraseDups =
      [.pseudoClass "hover", .pseudoElement "before"] := by decide +kernel
  obtain ⟨printed, _⟩ := warnings_exact [":Hover::x(", "b:before(y), :hover%:focus"]
  rw [once] at printed
  exact ⟨printed.text, printed.as_many_lines_iff.mpr (by decide)⟩

/-- A name with a line feed in it, behind a backslash: one notice on two lines. -/
example : (WarningLog.empty.warnAboutAll [":a\\\nb"]).2 =
    "\x1b[33m[Sift Selectors] ⚠ pseudo-class ':a\nb' is not evaluated and always matches\x1b[39m\n" := by
  decide +kernel

end SelectorList

end CssSelect
