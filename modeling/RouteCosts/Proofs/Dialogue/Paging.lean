import RouteCosts.Proofs.Dialogue.History
import RouteCosts.Proofs.Wire.RoundTrip

/-!
# Pages of names

A server that is asked for names from an index on fills one page. At any moment in the course of the
server this page is the longest of the names that it would list then, and because the names of a file
are short enough for a page it has one of them at least if there is any (`Service.page_longest`).
-/

namespace RouteCosts

/-! ### Names at any moment -/

namespace Planner

section InOrder
variable {planner : FilePlanner} (h : planner.InOrder)
include h

/-- **A file that has changed is listed**, if it gives locations. -/
theorem InOrder.names_refresh {files : DataFiles} {places : List Location}
    (hnew : files.1.stamp? ≠ planner.locationSource.loaded)
    (hg : FileSource.Gives Listing.locations files.1 places) :
    (planner.refresh files).graph.names = places.map Location.name := by
  have hload : (planner.refresh files).locationSource.data =
      (planner.locationSource.toFileSource.load Listing.locations files.1).2.data := by
    rw [(planner.sources_refresh files).1]
    rfl
  rw [(h.refresh files).names_eq, hload]
  rcases FileSource.load_cases Listing.locations planner.locationSource.toFileSource files.1 with
    ⟨stamp, hs, hl, -⟩ | ⟨-, ⟨data, hdata, htaken⟩ | ⟨error, hnone, -⟩⟩
  · exact absurd (hs.trans hl.symm) hnew
  · have hparse := FileSource.parse_eq_ok_iff.2 hdata
    rw [FileSource.parse_eq_ok_iff.2 hg] at hparse
    obtain rfl := Except.ok.inj hparse
    rw [htaken]
  · exact absurd hg (hnone places)

end InOrder

end Planner

namespace Service

theorem pageOf_eq_outOfRange_iff {names : List String} {start : UInt64} :
    pageOf names start = .error (.outOfRange start names.length) ↔ names.length < start.toNat := by
  unfold pageOf
  split
  · constructor
    · nofun
    · omega
  · constructor
    · omega
    · exact fun _ => rfl

/-- **A page of names is the longest that fits.** Take a server after any requests, with any files at
each of them, and the names that it would list now: those of the file of locations, if this has
changed and gives some, and in any case those that were loaded last. An index beyond their number is
refused with that number, and no other is. From any other index on, the page that is sent has the
longest run of the names that follow for which there is room, counting the bytes of each and one
separator; it says how many bytes these are, it is marked if and only if there are more names, and it
has one name at least if there is any. What is read of the answer from its bytes is the answer. -/
theorem page_longest (history : List Occasion) (files : DataFiles) (start : UInt64) (now : Int64) :
    let planner := heldAfter history
    let fresh := planner.refresh files
    let names := fresh.graph.names
    let answer := (page now files planner start).1
    names = fresh.locationSource.data.map Location.name ∧
      (∀ places, files.1.stamp? ≠ planner.locationSource.loaded →
        FileSource.Gives Listing.locations files.1 places → names = places.map Location.name) ∧
      (answer = .error (.outOfRange start names.length) ↔ names.length < start.toNat) ∧
      (start.toNat ≤ names.length → ∃ page taken,
        answer = .ok (.stamped now (.locationsResponse page)) ∧
          page.LongestFrom names start.toNat taken ∧
          Message.ofBytes .locationsResponse (Message.stamped now (.locationsResponse page)).encode =
            .stamped now (.locationsResponse page)) := by
  intro planner fresh names answer
  have hbefore : planner.InOrder := Planner.inOrder_heldAfter history
  have horder : fresh.InOrder := hbefore.refresh files
  have hanswer : answer = (pageOf names start).map
      fun page => Message.stamped now (.locationsResponse page) := rfl
  refine ⟨horder.names_eq, fun places => hbefore.names_refresh, ?_, fun hle => ?_⟩
  · rw [← pageOf_eq_outOfRange_iff, hanswer]
    cases pageOf names start with
    | ok page => exact ⟨nofun, nofun⟩
    | error error => exact ⟨fun he => congrArg _ (Except.error.inj he),
        fun he => congrArg _ (Except.error.inj he)⟩
  · have hgood : ∀ name ∈ names, IsName name ∧ Utf8.size name < pageCapacity := fun name hm =>
      horder.listed.of_mem_names (horder.names_eq ▸ hm)
    obtain ⟨taken, htaken⟩ := Page.longestFrom_addAll hgood hle
    have hpage : pageOf names start = .ok (Page.empty.addAll (names.drop start.toNat)) := if_pos hle
    refine ⟨_, taken, ?_, htaken, ?_⟩
    · rw [hanswer, hpage]
      rfl
    · exact Frame.message_ofBody now (.locationsResponse _)

/-- Two names of 60 and of 38 bytes fill the first page, and the third is left for the next. -/
theorem page_longest_two_of_three :
    let wide := String.ofList (List.replicate 60 'a')
    let accented := String.ofList (List.replicate 19 'é')
    let files : DataFiles := (.file (Utf8.bytes (wide ++ ",1\n" ++ accented ++ ",2\nc,3")) ⟨0, 0⟩,
      .missing)
    (∃ page, (Service.page 5 files (heldAfter []) 0).1 =
        .ok (.stamped 5 (.locationsResponse page)) ∧
      page.LongestFrom [wide, accented, "c"] 0 2) ∧
      (Service.page 5 files (heldAfter []) 4).1 = .error (.outOfRange 4 3) := by
  intro wide accented files
  have hgives : FileSource.Gives Listing.locations files.1
      [.isolated wide 1, .isolated accented 2, .isolated "c" 3] :=
    FileSource.parse_eq_ok_iff.1 (by decide +kernel)
  obtain ⟨-, hnames, -, hpage⟩ := page_longest [] files 0 5
  obtain ⟨-, -, hrange, -⟩ := page_longest [] files 4 5
  rw [hnames _ nofun hgives] at hpage hrange
  obtain ⟨page, taken, hanswer, hlongest, -⟩ := hpage (Nat.zero_le _)
  have htwo : 2 ≤ taken := hlongest.longest.2 ⟨by decide, by decide +kernel⟩
  have hthree : 0 + taken ≤ 3 := hlongest.longest.1.1
  obtain rfl | rfl : taken = 2 ∨ taken = 3 := by omega
  · exact ⟨⟨page, hanswer, hlongest⟩, hrange.2 (by decide)⟩
  · have hroom : ¬ room ([wide, accented, "c"].take 3) ≤ pageCapacity := by decide +kernel
    exact absurd hlongest.longest.1.2 hroom

end Service

end RouteCosts
