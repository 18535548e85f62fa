import SecureShell.Proofs.Negotiation.Payload
import SecureShell.Proofs.Text.Lines

/-!
# What a summary tells of a message

A summary has a line for the cookie, one for each list of names, and one for the flag. The names of
a message that was received are texts without commas that are not empty, and nothing else is known
of them; they are shown as they are. So the lists can be read off the summary (`shownLists`) as long
as no name holds a line feed, and then only: each line feed makes a line more than the twelve
(`length_lines_summary`), and what is behind it passes for a line of the summary. Two messages with
different lists can have the same summary.
-/

namespace SecureShell.KexInit

open Wire

/-! ### The lines that are shown -/

/-- What stands in front of the names in the line of a list. -/
def leader (label : String) : String := "  " ++ label ++ ": "

/-- The line of a list. -/
def listLine (label : String) (names : List String) : String := leader label ++ NameList.join names

/-- The line of the cookie. -/
def cookieLine (m : KexInit) : String := "SSH_MSG_KEXINIT " ++ m.cookie.description

/-- The line of the flag. -/
def flagLine (m : KexInit) : String :=
  "  first kex packet follows: " ++ Text.truth m.firstPacketFollows

theorem summaryLines_eq (m : KexInit) :
    m.summaryLines = m.cookieLine :: labels.zipWith listLine m.lists ++ [m.flagLine] := rfl

/-! ### Line feeds -/

/-- The number of line feeds in the names of a message. -/
def lineFeeds (m : KexInit) : ℕ := (m.lists.flatten.map fun name ↦ name.toList.count '\n').sum

/-- Joining names adds commas and no line feeds. -/
theorem count_join (names : List String) :
    (NameList.join names).toList.count '\n' =
      (names.map fun name ↦ name.toList.count '\n').sum := by
  have hcomma : ([','] : List Char).count '\n' = 0 := rfl
  rw [NameList.toList_join, Text.count_intercalate, hcomma, Nat.mul_zero, Nat.zero_add,
    List.map_map]
  rfl

theorem count_listLine {label : String} (h : label ∈ labels) (names : List String) :
    (listLine label names).toList.count '\n' =
      (names.map fun name ↦ name.toList.count '\n').sum := by
  have hlabel : ∀ label ∈ labels, label.toList.count '\n' = 0 := by simp [labels]
  have hleader : (leader label).toList.count '\n' = 0 := by simp [leader, hlabel label h]
  rw [listLine, String.toList_append, List.count_append, hleader, count_join, Nat.zero_add]

theorem count_cookieLine (m : KexInit) : m.cookieLine.toList.count '\n' = 0 := by
  have hdigit : ∀ n < 16, hexDigit n ≠ '\n' := by decide
  have hhex : (hex m.cookie.bytes).toList.count '\n' = 0 := by
    rw [List.count_eq_zero, hex, String.toList_ofList, List.mem_flatMap]
    rintro ⟨x, -, hx⟩
    have hlt : x.toNat < 256 := x.toNat_lt
    rcases List.mem_pair.1 hx with h | h
    · exact hdigit _ (by omega) h.symm
    · exact hdigit _ (by omega) h.symm
  have hfront : "SSH_MSG_KEXINIT ".toList.count '\n' = 0 := by simp
  show ("SSH_MSG_KEXINIT " ++ ("KexCookie(" ++ hex m.cookie.bytes ++ ")")).toList.count '\n' = 0
  simp only [String.toList_append, List.count_append, hfront, hhex]
  rfl

theorem count_flagLine (m : KexInit) : m.flagLine.toList.count '\n' = 0 := by
  have hfront : "  first kex packet follows: ".toList.count '\n' = 0 := by simp
  have htruth : (Text.truth m.firstPacketFollows).toList.count '\n' = 0 := by
    cases m.firstPacketFollows <;> simp [Text.truth]
  show ("  first kex packet follows: " ++ Text.truth m.firstPacketFollows).toList.count '\n' = 0
  rw [String.toList_append, List.count_append, hfront, htruth]

/-- The line feeds in the lines of a summary are those in the names. -/
theorem sum_count_summaryLines (m : KexInit) :
    (m.summaryLines.map fun line ↦ line.toList.count '\n').sum = m.lineFeeds := by
  have hlists : (labels.zipWith listLine m.lists).map (fun line ↦ line.toList.count '\n') =
      m.lists.map fun names ↦ (names.map fun name ↦ name.toList.count '\n').sum := by
    refine List.ext_getElem (by simp [labels, lists]) fun i hi _ ↦ ?_
    rw [List.getElem_map, List.getElem_map, List.getElem_zipWith]
    exact count_listLine (List.getElem_mem _) _
  have hsum : m.lineFeeds =
      (m.lists.map fun names ↦ (names.map fun name ↦ name.toList.count '\n').sum).sum := by
    rw [lineFeeds, List.map_flatten, List.sum_flatten, List.map_map]
    rfl
  rw [summaryLines_eq, List.map_append, List.map_cons, hlists, List.map_singleton,
    count_cookieLine, count_flagLine, List.sum_append, List.sum_cons, ← hsum, List.sum_singleton,
    Nat.zero_add, Nat.add_zero]

theorem summaryLines_ne_nil (m : KexInit) : m.summaryLines ≠ [] := List.cons_ne_nil _ _

/-- **A summary has twelve lines, and one more for each line feed in a name.** -/
theorem length_lines_summary (m : KexInit) : (Text.lines m.summary).length = 12 + m.lineFeeds := by
  have hlength : m.summaryLines.length = 12 := rfl
  rw [summary, Text.length_lines_intercalate m.summaryLines_ne_nil, hlength,
    sum_count_summaryLines]

/-- Without line feeds in names, the lines of a summary are those that were put together. -/
theorem lines_summary {m : KexInit} (h : m.lineFeeds = 0) :
    Text.lines m.summary = m.summaryLines := by
  refine Text.lines_intercalate m.summaryLines_ne_nil fun line hline ↦ ?_
  have hzero := List.sum_eq_zero_iff_forall_eq_nat.1 ((sum_count_summaryLines m).trans h)
  exact List.count_eq_zero.1 (List.forall_mem_map.1 hzero line hline)

/-- There are no line feeds in names exactly if there are none in joined names. -/
theorem lineFeeds_eq_zero_iff {m : KexInit} :
    m.lineFeeds = 0 ↔ ∀ names ∈ m.lists, '\n' ∉ (NameList.join names).toList := by
  rw [lineFeeds, List.map_flatten, List.sum_flatten, List.sum_eq_zero_iff_forall_eq_nat,
    List.map_map, List.forall_mem_map]
  refine forall₂_congr fun names _ ↦ ?_
  rw [← List.count_eq_zero, count_join]
  rfl

/-! ### Reading the lists off a summary -/

/-- The names that a line shows behind a label. -/
def shownNames? (label line : String) : Option (List String) :=
  NameList.parse? (String.ofList (line.toList.drop (leader label).toList.length))

/-- The ten lists as a reader of the summary finds them: each in the line in which it should be. -/
def shownLists (text : String) : List (Option (List String)) :=
  labels.zipWith shownNames? ((Text.lines text).drop 1)

theorem shownNames?_listLine {names : List String} (h : NameList.Travels names) (label : String) :
    shownNames? label (listLine label names) = some names := by
  rw [shownNames?, listLine, String.toList_append, List.drop_left, String.ofList_toList,
    NameList.parse?_join h.isListable]

/-- What a line shows has no line feed in it. -/
theorem not_mem_of_shownNames? {label line : String} {names : List String}
    (h : shownNames? label line = some names) (hline : '\n' ∉ line.toList) :
    '\n' ∉ (NameList.join names).toList := by
  rw [(NameList.parse?_eq_some_iff.1 h).2, String.toList_ofList]
  exact fun hmem ↦ hline (List.mem_of_mem_drop hmem)

/-- **The lists can be read off a summary exactly if no name holds a line feed.** -/
theorem shownLists_summary_iff {m : KexInit} (h : ∀ names ∈ m.lists, NameList.Travels names) :
    shownLists m.summary = m.lists.map some ↔ m.lineFeeds = 0 := by
  constructor
  · intro hshown
    refine lineFeeds_eq_zero_iff.2 fun names hnames ↦ ?_
    -- A list that was read off was read off one line.
    have hmem : some names ∈ shownLists m.summary := hshown ▸ List.mem_map_of_mem hnames
    obtain ⟨i, hi, hget⟩ := List.getElem_of_mem hmem
    simp only [shownLists, List.getElem_zipWith] at hget
    exact not_mem_of_shownNames? hget
      (Text.not_mem_of_mem_lines (List.mem_of_mem_drop (List.getElem_mem _)))
  · intro hzero
    rw [shownLists, lines_summary hzero, summaryLines_eq, List.cons_append, List.drop_one,
      List.tail_cons]
    refine List.ext_getElem (by simp [labels, lists]) fun i hi hlists ↦ ?_
    have hbound : i < (labels.zipWith listLine m.lists).length := by
      simpa [labels, lists] using hlists
    rw [List.getElem_zipWith, List.getElem_map, List.getElem_append_left hbound,
      List.getElem_zipWith]
    exact shownNames?_listLine (h _ (List.getElem_mem _)) _

/-! ### Received messages -/

/-- The lists of a message that was received can all travel, and no more is known of them. -/
theorem travels_of_ofBytes {payload : Bytes} {m : KexInit} (h : ofBytes payload = .ok m) :
    ∀ names ∈ m.lists, NameList.Travels names := by
  obtain ⟨body, rfl, hbody⟩ := ofBytes_eq_ok_iff.1 h
  exact (reads_body_iff.1 hbody).1

/-- **The summary of a message that was received shows its lists exactly if no name holds a line
feed.** Then it has twelve lines: one for the cookie, one for each list, and one for the flag.
Otherwise it has one line more for each line feed, and the lists cannot be read off it. -/
theorem summary_shows_lists_iff {payload : Bytes} {m : KexInit} (h : ofBytes payload = .ok m) :
    (Text.lines m.summary).length = 12 + m.lineFeeds ∧
      (m.lineFeeds = 0 → Text.lines m.summary = m.summaryLines) ∧
      (shownLists m.summary = m.lists.map some ↔ m.lineFeeds = 0) :=
  ⟨length_lines_summary m, lines_summary, shownLists_summary_iff (travels_of_ofBytes h)⟩

/-- A payload with two lists that are not empty, given as the texts that travel. -/
def payloadWith (kex hostKey : String) : Bytes :=
  20 :: (List.replicate 16 0 ++ bigEndian 4 (utf8 kex).length ++ utf8 kex ++
    bigEndian 4 (utf8 hostKey).length ++ utf8 hostKey ++ List.replicate 37 0)

/-- Other breaks, blanks and the text of another line do no harm. -/
theorem summary_shows_lists_return :
    let payload := payloadWith "a\r  server host key: b,\u2028" "\t, "
    ∃ m, ofBytes payload = .ok m ∧ m.kex = ["a\r  server host key: b", "\u2028"] ∧
      m.hostKey = ["\t", " "] ∧ (Text.lines m.summary).length = 12 ∧
      shownLists m.summary = m.lists.map some := by
  intro payload
  let m : KexInit :=
    ⟨⟨List.replicate 16 0, rfl⟩, ["a\r  server host key: b", "\u2028"], ["\t", " "], ⟨[], []⟩,
      ⟨[], []⟩, ⟨[], []⟩, ⟨[], []⟩, false⟩
  have hread : ofBytes payload = .ok m := by rfl
  have hzero : m.lineFeeds = 0 := by rfl
  obtain ⟨hlength, -, hshown⟩ := summary_shows_lists_iff hread
  exact ⟨m, hread, rfl, rfl, by rw [hlength, hzero], hshown.2 hzero⟩

/-- **Two messages with different lists and one summary.** Both are received. A name with a line
feed in it shows as one name and another list, and what is shown has thirteen lines. -/
theorem summary_of_different_lists :
    ∃ m other, ofBytes (payloadWith "a\n  server host key: b" "c") = .ok m ∧
      ofBytes (payloadWith "a" "b\n  server host key: c") = .ok other ∧
      m.hostKey = ["c"] ∧ other.hostKey = ["b\n  server host key: c"] ∧
      m.summary = other.summary ∧ (Text.lines m.summary).length = 13 ∧
      shownLists m.summary ≠ m.lists.map some := by
  let message (kex hostKey : String) : KexInit :=
    ⟨⟨List.replicate 16 0, rfl⟩, [kex], [hostKey], ⟨[], []⟩, ⟨[], []⟩, ⟨[], []⟩, ⟨[], []⟩, false⟩
  let m := message "a\n  server host key: b" "c"
  have hread : ofBytes (payloadWith "a\n  server host key: b" "c") = .ok m := by rfl
  have hfeeds : m.lineFeeds = 1 := by rfl
  refine ⟨m, message "a" "b\n  server host key: c", hread, by rfl, rfl, rfl, by decide +kernel, ?_,
    fun hshown ↦ ?_⟩
  · rw [length_lines_summary, hfeeds]
  · have hzero := (shownLists_summary_iff (travels_of_ofBytes hread)).1 hshown
    rw [hfeeds] at hzero
    cases hzero

end SecureShell.KexInit
