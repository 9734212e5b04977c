/-
  What a run of the command line leaves behind.

  A run reads its input, makes what was asked for, and prints it or saves it; each of these can
  fail. Main statement: a run that fails prints nothing and leaves the disk as it was, unless its
  output was opened and could not take the whole program: then the first bytes of the program
  stand there. A run that succeeds has printed all of what was asked for and left the disk alone,
  or has printed nothing and saved the program, which is then the content of the output path, with
  every other file as it was.
-/
import Reactive.CommandLine.Run
import Reactive.Proofs.CommandLine.Arguments

namespace Reactive.CommandLine

/-! ## Disks with one file changed -/

namespace Disk

variable {d : Disk} {place other : Place} {content : ByteArray}

theorem entryAt?_put (d : Disk) (place other : Place) (content : ByteArray) :
    (d.put place content).entryAt? other
      = if other = place then some (.file content) else d.entryAt? other := by
  unfold entryAt? put
  induction d.entries with
  | nil => by_cases hother : other = place <;> simp [List.lookup_cons, hother, beq_false_of_ne]
  | cons e es ih =>
    obtain ⟨p, e⟩ := e
    by_cases hp : p = place
    · subst hp
      by_cases hother : other = p
      · simpa [hother] using ih
      · have hne : (other == p) = false := beq_false_of_ne hother
        simpa [hother, List.lookup_cons, hne] using ih
    · by_cases hother : other = p
      · subst hother
        simp [hp]
      · have hne : (other == p) = false := beq_false_of_ne hother
        simpa [hp, List.lookup_cons, hne] using ih

theorem isDirectory_iff (d : Disk) (place : Place) : d.isDirectory place = true
    ↔ place <+: d.here ∨ ∃ e ∈ d.entries, place <+: e.1 ∧ (place ≠ e.1 ∨ e.2 = .directory) := by
  have hentry (e : Entry) : e.isDirectory = true ↔ e = .directory := by
    cases e <;> simp [Entry.isDirectory]
  simp [isDirectory, List.any_eq_true, hentry]

/-- What holds a directory is one. -/
theorem isDirectory_dropLast (h : d.isDirectory place = true) :
    d.isDirectory place.dropLast = true := by
  have hleads := List.dropLast_prefix place
  rw [isDirectory_iff] at h ⊢
  rcases h with hhere | ⟨e, he, hplace, hinside⟩
  · exact .inl (hleads.trans hhere)
  · refine .inr ⟨e, he, hleads.trans hplace, ?_⟩
    by_cases hdrop : place.dropLast = e.1
    · obtain rfl : place = e.1 := hplace.eq_of_length_le (hdrop ▸ hleads.length_le)
      exact hinside.imp_left fun hne => absurd rfl hne
    · exact .inl hdrop

/-- A file in a directory that was there makes no other directory. -/
theorem isDirectory_put (hparent : d.isDirectory place.dropLast = true)
    (hplace : d.isDirectory place = false) (content : ByteArray) (other : Place) :
    (d.put place content).isDirectory other = d.isDirectory other := by
  rw [Bool.eq_iff_iff, isDirectory_iff, isDirectory_iff]
  refine or_congr_right' fun hhere => ⟨?_, ?_⟩
  · rintro ⟨e, he, hleads, hinside⟩
    rcases List.mem_append.mp he with he | he
    · exact ⟨e, (List.mem_filter.mp he).1, hleads, hinside⟩
    · obtain rfl := List.mem_singleton.mp he
      -- What lies above the new file lies above its directory, or is that.
      have hne : other ≠ place := hinside.resolve_right nofun
      replace hleads : other <+: place := hleads
      have habove : other <+: place.dropLast := by
        obtain ⟨tail, htail⟩ := hleads
        have htail' : tail ≠ [] := by
          rintro rfl
          exact hne (by simpa using htail)
        rw [← htail, List.dropLast_append_of_ne_nil htail']
        exact List.prefix_append _ _
      rcases (isDirectory_iff d _).mp hparent with hroot | ⟨e, he, hplace', hinside'⟩
      · exact absurd (habove.trans hroot) hhere
      · refine ⟨e, he, habove.trans hplace', ?_⟩
        by_cases hother : other = e.1
        · have hdrop : place.dropLast = e.1 :=
            hplace'.eq_of_length_le (hother ▸ habove.length_le)
          exact .inr (hinside'.resolve_left fun h => h hdrop)
        · exact .inl hother
  · rintro ⟨e, he, hleads, hinside⟩
    by_cases hentry : e.1 = place
    · have hne : other ≠ place := by
        rintro rfl
        have hdirectory := (isDirectory_iff d other).mpr (.inr ⟨e, he, hleads, hinside⟩)
        rw [hplace] at hdirectory
        cases hdirectory
      exact ⟨(place, .file content), by simp [put], hentry ▸ hleads, .inl hne⟩
    · exact ⟨e, by simp [put, he, hentry], hleads, hinside⟩

/-- A path leads to something in a directory that is none itself. -/
theorem follow_last {start : Place} {parts : List String} {slash : Bool}
    (hstart : d.isDirectory start = true) (h : d.follow start parts = .last place slash) :
    d.isDirectory place.dropLast = true ∧ d.isDirectory place = false := by
  fun_induction follow d start parts with
  | case1 => cases h
  | case2 start part parts hpart ih => exact ih hstart h
  | case3 start part parts hpart hup ih => exact ih (isDirectory_dropLast hstart) h
  | case4 start part parts hpart hup there hthere ih => exact ih hthere h
  | case5 start part parts hpart hup there hthere hlast =>
    obtain ⟨rfl, -⟩ := Location.last.inj h
    exact ⟨by rwa [List.dropLast_concat], by simpa using hthere⟩
  | case6 => cases h
  | case7 => cases h

/-- A path that leads to a file leads there when another text stands in it. -/
theorem follow_put {start : Place} {parts : List String} {slash : Bool}
    (hparent : d.isDirectory place.dropLast = true) (hplace : d.isDirectory place = false)
    (h : d.follow start parts = .last place slash) :
    (d.put place content).follow start parts = .last place slash := by
  have hsame := isDirectory_put hparent hplace content
  fun_induction follow d start parts with
  | case1 => cases h
  | case2 start part parts hpart ih =>
    rw [follow, if_pos hpart]
    exact ih h
  | case3 start part parts hpart hup ih =>
    rw [follow, if_neg hpart, if_pos hup]
    exact ih h
  | case4 start part parts hpart hup there hthere ih =>
    rw [follow, if_neg hpart, if_neg hup]
    dsimp only
    rw [hsame, if_pos hthere]
    exact ih h
  | case5 start part parts hpart hup there hthere hlast =>
    rw [follow, if_neg hpart, if_neg hup]
    dsimp only
    rw [hsame, if_neg hthere, if_pos hlast]
    exact h
  | case6 => cases h
  | case7 => cases h

theorem isDirectory_root (d : Disk) : d.isDirectory [] = true :=
  (isDirectory_iff d []).mpr (.inl List.nil_prefix)

theorem isDirectory_here (d : Disk) : d.isDirectory d.here = true :=
  (isDirectory_iff d _).mpr (.inl List.prefix_rfl)

theorem locate_put {path : String} {slash : Bool} (content : ByteArray)
    (h : d.locate path = .last place slash) :
    (d.put place content).locate path = .last place slash := by
  unfold locate at h ⊢
  split at h
  · cases h
  · obtain ⟨hparent, hplace⟩ := follow_last d.isDirectory_root h
    exact follow_put hparent hplace h
  · obtain ⟨hparent, hplace⟩ := follow_last d.isDirectory_here h
    exact follow_put hparent hplace h

/-- The content of the file that a path leads to. -/
def content? (d : Disk) (path : String) : Option ByteArray :=
  match d.locate path with
  | .last place false =>
    match d.entryAt? place with
    | some (.file content) => some content
    | _ => none
  | _ => none

end Disk

/-! ## Saving -/

/-- One disk is the other one but for the file that a path leads to, which has this content. -/
structure Saved (before : Disk) (path : String) (content : ByteArray) (after : Disk) : Prop where
  content_eq : after.content? path = some content
  others : ∃ place, before.locate path = .last place false ∧ after.locate path = .last place false
    ∧ ∀ other, other ≠ place → after.entryAt? other = before.entryAt? other

/-- A device stands at a place: what is written there is stored in no file. -/
def Disk.IsDevice (d : Disk) (place : Place) : Prop :=
  d.entryAt? place = some .output ∨ d.entryAt? place = some .sink

/-- A text can be written at a path: the path can be opened, and there is room for the text. -/
def Disk.Takes (d : Disk) (path text : String) : Prop :=
  ∃ place, d.openFile path = .ok place
    ∧ (d.IsDevice place ∨ d.stored place text = text.toUTF8)

/-- What a write that comes to its end leaves behind. -/
inductive Stored (w : World) (path text : String) : World → Prop where
  /-- The text was printed. -/
  | shown {place : Place} (hopen : w.disk.openFile path = .ok place)
      (hentry : w.disk.entryAt? place = some .output) :
      Stored w path text { w with stdout := w.stdout ++ text }
  | dropped {place : Place} (hopen : w.disk.openFile path = .ok place)
      (hentry : w.disk.entryAt? place = some .sink) : Stored w path text w
  | saved {place : Place} {after : Disk} (hopen : w.disk.openFile path = .ok place)
      (hdevice : ¬w.disk.IsDevice place) (hsaved : Saved w.disk path text.toUTF8 after) :
      Stored w path text { w with disk := after }

/-- What a write leaves behind that was cut short: the first bytes of the text. -/
def CutShort (before : Disk) (path text : String) (after : Disk) : Prop :=
  ∃ place bytes, before.openFile path = .ok place ∧ ¬before.IsDevice place
    ∧ before.room place = some bytes ∧ bytes < text.utf8ByteSize
    ∧ Saved before path (text.toUTF8.extract 0 bytes) after

/-- How a write ends: it comes to its end, is refused with nothing changed, or is cut short. -/
inductive Writes (w : World) (path text : String) : Except FileFault Unit × World → Prop where
  | done {w' : World} (htakes : w.disk.Takes path text) (h : Stored w path text w') :
      Writes w path text (.ok (), w')
  | refused {fault : FileFault} (htakes : ¬w.disk.Takes path text) :
      Writes w path text (.error fault, w)
  | cut {fault : FileFault} {after : Disk} (htakes : ¬w.disk.Takes path text)
      (h : CutShort w.disk path text after) :
      Writes w path text (.error fault, { w with disk := after })

theorem Disk.locate_of_openFile {d : Disk} {path : String} {place : Place}
    (h : d.openFile path = .ok place) : d.locate path = .last place false := by
  unfold openFile at h
  split at h
  · cases h
  · cases h
  · rename_i there slash hlocate
    cases slash with
    | true => cases h
    | false =>
      rw [if_neg Bool.false_ne_true] at h
      by_cases hwrite : d.mayWrite (if (d.entryAt? there).isSome then there else there.dropLast)
      · rw [if_pos hwrite] at h
        obtain rfl := Except.ok.inj h
        exact hlocate
      · rw [if_neg hwrite] at h
        cases h

theorem saved_put {d : Disk} {path : String} {place : Place} (content : ByteArray)
    (h : d.openFile path = .ok place) : Saved d path content (d.put place content) := by
  have hlocate := Disk.locate_of_openFile h
  have hlocate' := Disk.locate_put content hlocate
  refine ⟨?_, place, hlocate, hlocate', fun other hother => ?_⟩
  · rw [Disk.content?, hlocate']
    simp only [Disk.entryAt?_put, if_true]
  · rw [Disk.entryAt?_put, if_neg hother]

/-- A text is stored as a whole if there is room for it. -/
theorem Disk.stored_eq_iff (d : Disk) (place : Place) (text : String) :
    d.stored place text = text.toUTF8 ↔ d.fits place text = true := by
  unfold stored fits
  split
  · simp
  · rename_i bytes _
    have hwhole : text.utf8ByteSize = text.toUTF8.size := rfl
    rw [decide_eq_true_iff, hwhole]
    constructor
    · intro h
      have hsize := congrArg ByteArray.size h
      rw [ByteArray.size_extract] at hsize
      omega
    · intro hle
      have hle' : text.utf8ByteSize ≤ bytes := hle
      ext1
      simp [hle']

/-- A text that is not stored as a whole is cut. -/
theorem Disk.room_of_not_fits {d : Disk} {place : Place} {text : String}
    (h : ¬d.fits place text = true) : ∃ bytes, d.room place = some bytes
      ∧ bytes < text.utf8ByteSize ∧ d.stored place text = text.toUTF8.extract 0 bytes := by
  unfold fits at h
  unfold stored
  split at h
  · exact absurd rfl h
  · rename_i bytes hroom
    rw [hroom]
    exact ⟨bytes, rfl, by simpa using h, rfl⟩

theorem World.store_writes {w : World} {path : String} {place : Place} (text : String)
    (hopen : w.disk.openFile path = .ok place) (hdevice : ¬w.disk.IsDevice place) :
    Writes w path text (w.store place text) := by
  have hsaved := saved_put (w.disk.stored place text) hopen
  unfold store
  by_cases hfits : w.disk.fits place text = true
  · have hwhole := (w.disk.stored_eq_iff place text).mpr hfits
    rw [if_pos hfits, hwhole]
    rw [hwhole] at hsaved
    exact .done ⟨place, hopen, .inr hwhole⟩ (.saved hopen hdevice hsaved)
  · obtain ⟨bytes, hroom, hbytes, hcut⟩ := Disk.room_of_not_fits hfits
    rw [if_neg hfits]
    refine .cut ?_ ⟨place, bytes, hopen, hdevice, hroom, hbytes, hcut ▸ hsaved⟩
    rintro ⟨place', hplace', htakes⟩
    rw [hopen] at hplace'
    obtain rfl := Except.ok.inj hplace'
    exact htakes.elim hdevice fun hwhole => hfits ((w.disk.stored_eq_iff place text).mp hwhole)

theorem World.writeFile_writes (w : World) (path text : String) :
    Writes w path text (w.writeFile path text) := by
  unfold writeFile
  cases hopen : w.disk.openFile path with
  | error fault =>
    refine .refused ?_
    rintro ⟨place, hplace, -⟩
    rw [hopen] at hplace
    cases hplace
  | ok place =>
    dsimp only
    split
    · exact .done ⟨place, hopen, .inl (.inl ‹_›)⟩ (.shown hopen ‹_›)
    · exact .done ⟨place, hopen, .inl (.inr ‹_›)⟩ (.dropped hopen ‹_›)
    · rename_i houtput hsink
      exact store_writes text hopen fun h => h.elim houtput hsink

/-! ## Delivering -/

/-- What an invocation makes of the component in its input. -/
def Invocation.product (i : Invocation) (c : Component) : Delivery :=
  match i.request with
  | .showComponent => .print (c.toJson.pretty ++ "\n")
  | .showFacts => .print ((analyze c).toJson.pretty ++ "\n")
  | .compile =>
    let code := (compileComponent c i.options).code
    if i.toStdout then .print code else .save i.output code

/-- All that can fail in making it is building the component. -/
theorem Invocation.deliver_eq (i : Invocation) (source : String) :
    i.deliver source = (build source i.input).map i.product := by
  have hpath : i.options.filePath = i.input := rfl
  unfold deliver product compile
  rw [hpath]
  cases i.request <;> cases build source i.input <;> rfl

theorem Invocation.product_eq_print_iff {i : Invocation} {c : Component} {text : String} :
    i.product c = .print text
      ↔ i.request = .showComponent ∧ text = c.toJson.pretty ++ "\n"
        ∨ i.request = .showFacts ∧ text = (analyze c).toJson.pretty ++ "\n"
        ∨ i.request = .compile ∧ i.toStdout = true
          ∧ text = (compileComponent c i.options).code := by
  unfold product
  cases i.request <;> cases i.toStdout <;> simp [eq_comm]

theorem Invocation.product_eq_save_iff {i : Invocation} {c : Component} {path text : String} :
    i.product c = .save path text
      ↔ i.request = .compile ∧ i.toStdout = false ∧ path = i.output
        ∧ text = (compileComponent c i.options).code := by
  unfold product
  cases i.request <;> cases i.toStdout <;> simp [eq_comm]

theorem compile_of_build {source : String} {o : Options} {c : Component}
    (h : build source o.filePath = .ok c) : compile source o = .ok (compileComponent c o) := by
  rw [compile, h]
  rfl

/-- How the run of an invocation ends. -/
inductive Ends (i : Invocation) (d : Disk) : Outcome → Prop where
  | unread {message : String} (hread : ∀ source, d.readFile i.input ≠ .ok source) :
      Ends i d ⟨1, "", message, d⟩
  | refused {source message : String} (hread : d.readFile i.input = .ok source)
      (hbuild : ∀ c, build source i.input ≠ .ok c) : Ends i d ⟨1, "", message, d⟩
  | printed {source text : String} {c : Component} (hread : d.readFile i.input = .ok source)
      (hbuild : build source i.input = .ok c) (hproduct : i.product c = .print text) :
      Ends i d ⟨0, text, "", d⟩
  | unsaved {source path text message : String} {c : Component}
      (hread : d.readFile i.input = .ok source) (hbuild : build source i.input = .ok c)
      (hproduct : i.product c = .save path text) (hwrite : ¬d.Takes path text) :
      Ends i d ⟨1, "", message, d⟩
  | cut {source path text message : String} {c : Component} {after : Disk}
      (hread : d.readFile i.input = .ok source) (hbuild : build source i.input = .ok c)
      (hproduct : i.product c = .save path text) (hwrite : ¬d.Takes path text)
      (hcut : CutShort d path text after) : Ends i d ⟨1, "", message, after⟩
  | saved {source path text : String} {c : Component} {w : World}
      (hread : d.readFile i.input = .ok source) (hbuild : build source i.input = .ok c)
      (hproduct : i.product c = .save path text) (hwrite : d.Takes path text)
      (hsaved : Stored ⟨d, "", ""⟩ path text w) : Ends i d ⟨0, w.stdout, w.stderr, w.disk⟩

/-- What is to be printed is printed as a whole. -/
theorem Invocation.outcome_of_print {i : Invocation} {d : Disk} {source text : String}
    {c : Component} (hread : d.readFile i.input = .ok source)
    (hbuild : build source i.input = .ok c) (hproduct : i.product c = .print text) :
    outcome (i.execute diskSystem) d = ⟨0, text, "", d⟩ := by
  simp [outcome, execute, diskSystem, hread, Except.mapError, deliver_eq, hbuild, Except.map,
    hproduct]
  rfl

theorem Invocation.execute_ends (i : Invocation) (d : Disk) :
    Ends i d (outcome (i.execute diskSystem) d) := by
  -- The first thing that is asked for is the input; everything else depends on its text.
  cases hread : d.readFile i.input with
  | error fault =>
    have hrun : outcome (i.execute diskSystem) d
        = ⟨1, "", "" ++ readFailure i.input fault.message, d⟩ := by
      simp [outcome, execute, diskSystem, System.finish, hread, Except.mapError]
      rfl
    rw [hrun]
    exact .unread (by simp [hread])
  | ok source =>
    cases hbuild : build source i.input with
    | error e =>
      have hrun : outcome (i.execute diskSystem) d = ⟨1, "", "" ++ errorLine i.input e, d⟩ := by
        simp [outcome, execute, diskSystem, System.finish, hread, Except.mapError, deliver_eq,
          hbuild, Except.map]
        rfl
      rw [hrun]
      exact .refused hread (by simp [hbuild])
    | ok c =>
      cases hproduct : i.product c with
      | print text =>
        rw [outcome_of_print hread hbuild hproduct]
        exact .printed hread hbuild hproduct
      | save path text =>
        generalize hwritten : World.writeFile ⟨d, "", ""⟩ path text = written
        have hwrites := World.writeFile_writes ⟨d, "", ""⟩ path text
        rw [hwritten] at hwrites
        have hrun : outcome (i.execute diskSystem) d = match written with
            | (.error fault, w) =>
              ⟨1, w.stdout, w.stderr ++ writeFailure path fault.message, w.disk⟩
            | (.ok (), w) => ⟨0, w.stdout, w.stderr, w.disk⟩ := by
          obtain ⟨result, w⟩ := written
          cases result <;>
            simp [outcome, execute, diskSystem, System.finish, hread, Except.mapError, deliver_eq,
              hbuild, Except.map, hproduct, hwritten] <;> rfl
        rw [hrun]
        cases hwrites with
        | done htakes hstored => exact .saved hread hbuild hproduct htakes hstored
        | refused htakes => exact .unsaved hread hbuild hproduct htakes
        | cut htakes hcut => exact .cut hread hbuild hproduct htakes hcut

/-- A run whose input was read and built, and whose output could take the program if it was to. -/
def Feasible (i : Invocation) (d : Disk) : Prop :=
  ∃ source c, d.readFile i.input = .ok source ∧ build source i.input = .ok c
    ∧ (i.request = .compile → i.toStdout = false →
      d.Takes i.output (compileComponent c i.options).code)

theorem Ends.status_eq_zero_iff {i : Invocation} {d : Disk} {r : Outcome} (h : Ends i d r) :
    r.status = 0 ↔ Feasible i d := by
  have hunsaved {source path text : String} {c : Component}
      (hread : d.readFile i.input = .ok source) (hbuild : build source i.input = .ok c)
      (hproduct : i.product c = .save path text) (hwrite : ¬d.Takes path text) :
      ¬Feasible i d := by
    obtain ⟨hrequest, hstdout, rfl, rfl⟩ := Invocation.product_eq_save_iff.mp hproduct
    rintro ⟨source', c', hread', hbuild', htakes⟩
    rw [hread] at hread'
    obtain rfl := Except.ok.inj hread'
    rw [hbuild] at hbuild'
    obtain rfl := Except.ok.inj hbuild'
    exact hwrite (htakes hrequest hstdout)
  cases h with
  | unread hread =>
    refine iff_of_false (by simp) ?_
    rintro ⟨source, -, hsource, -⟩
    exact hread source hsource
  | refused hread hbuild =>
    refine iff_of_false (by simp) ?_
    rintro ⟨source, c, hsource, hc, -⟩
    rw [hread] at hsource
    obtain rfl := Except.ok.inj hsource
    exact hbuild c hc
  | printed hread hbuild hproduct =>
    refine iff_of_true rfl ⟨_, _, hread, hbuild, fun hrequest hstdout => ?_⟩
    simp [Invocation.product_eq_print_iff, hrequest, hstdout] at hproduct
  | unsaved hread hbuild hproduct hwrite =>
    exact iff_of_false (by simp) (hunsaved hread hbuild hproduct hwrite)
  | cut hread hbuild hproduct hwrite =>
    exact iff_of_false (by simp) (hunsaved hread hbuild hproduct hwrite)
  | saved hread hbuild hproduct hwrite =>
    obtain ⟨-, -, rfl, rfl⟩ := Invocation.product_eq_save_iff.mp hproduct
    exact iff_of_true rfl ⟨_, _, hread, hbuild, fun _ _ => hwrite⟩

/-- A run that fails has printed nothing, and has changed nothing or left a program that was cut
short. -/
theorem Ends.failed {i : Invocation} {d : Disk} {r : Outcome} (h : Ends i d r)
    (hstatus : r.status ≠ 0) : r.stdout = "" ∧ (r.disk = d
      ∨ i.request = .compile ∧ i.toStdout = false ∧ ∃ source result,
        d.readFile i.input = .ok source ∧ compile source i.options = .ok result
        ∧ CutShort d i.output result.code r.disk) := by
  cases h with
  | unread | refused | unsaved => exact ⟨rfl, .inl rfl⟩
  | cut hread hbuild hproduct hwrite hcut =>
    obtain ⟨hrequest, hstdout, rfl, rfl⟩ := Invocation.product_eq_save_iff.mp hproduct
    exact ⟨rfl, .inr ⟨hrequest, hstdout, _, _, hread, compile_of_build hbuild, hcut⟩⟩
  | printed | saved => exact absurd rfl hstatus

/-- Take arguments that stand for an invocation, so that they spell parts that ask for it, and any
disk. The run ends with status zero exactly if the input can be read and built, and the output can
take the program if there is to be one. If it does not, nothing is printed and the disk is as
before, unless the output was opened and had too little room: then it holds the first bytes of the
program. If it does, what was asked for is the component or its facts as JSON, or the compiled
program: it has been printed and the disk is as before, or it is the content of the output path,
nothing has been printed and every other file is as before. An output path that names a device
has no content: another name of the standard output prints the program, and a sink drops it. -/
theorem run_all_or_nothing {args : List String} {i : Invocation}
    (h : Invocation.ofArguments args = .ok i) (d : Disk) :
    let r := runOn args d
    (∃ parts, Spelled args parts ∧ Asks parts i)
    ∧ (r.status = 0 ↔ Feasible i d)
    ∧ (r.status ≠ 0 → r.stdout = "" ∧ (r.disk = d
      ∨ i.request = .compile ∧ i.toStdout = false ∧ ∃ source result,
        d.readFile i.input = .ok source ∧ compile source ⟨i.input, i.name, i.policy⟩ = .ok result
        ∧ CutShort d i.output result.code r.disk))
    ∧ (r.status = 0 → ∃ source c, d.readFile i.input = .ok source
      ∧ build source i.input = .ok c
      ∧ (i.request = .showComponent → r.stdout = c.toJson.pretty ++ "\n" ∧ r.disk = d)
      ∧ (i.request = .showFacts → r.stdout = (analyze c).toJson.pretty ++ "\n" ∧ r.disk = d)
      ∧ (i.request = .compile → ∃ result,
        compile source ⟨i.input, i.name, i.policy⟩ = .ok result
        ∧ (i.toStdout = true → r.stdout = result.code ∧ r.disk = d)
        ∧ (i.toStdout = false → ∃ place, d.openFile i.output = .ok place
          ∧ (¬d.IsDevice place → r.stdout = "" ∧ Saved d i.output result.code.toUTF8 r.disk)
          ∧ (d.entryAt? place = some .output → r.stdout = result.code ∧ r.disk = d)
          ∧ (d.entryAt? place = some .sink → r.stdout = "" ∧ r.disk = d)))) := by
  intro r
  have hends : Ends i d r := by
    have hrun : r = outcome (i.execute diskSystem) d := by simp only [r, runOn, program, h]
    rw [hrun]
    exact i.execute_ends d
  refine ⟨ofArguments_eq_ok_iff.mp h, hends.status_eq_zero_iff, hends.failed, fun hstatus => ?_⟩
  clear_value r
  cases hends with
  | unread | refused | unsaved | cut => exact absurd hstatus (by simp)
  | @printed source text c hread hbuild hproduct =>
    refine ⟨source, c, hread, hbuild, ?_⟩
    rcases Invocation.product_eq_print_iff.mp hproduct with ⟨hrequest, rfl⟩ | ⟨hrequest, rfl⟩
      | ⟨hrequest, hstdout, rfl⟩
    · simp [hrequest]
    · simp [hrequest]
    · have hcompile := compile_of_build (o := i.options) hbuild
      refine ⟨by simp [hrequest], by simp [hrequest], fun _ => ⟨_, hcompile, ?_⟩⟩
      simp [hstdout]
  | @saved source path text c w hread hbuild hproduct hwrite hsaved =>
    obtain ⟨hrequest, hstdout, rfl, rfl⟩ := Invocation.product_eq_save_iff.mp hproduct
    have hcompile := compile_of_build (o := i.options) hbuild
    refine ⟨source, c, hread, hbuild, by simp [hrequest], by simp [hrequest],
      fun _ => ⟨_, hcompile, by simp [hstdout], fun _ => ?_⟩⟩
    cases hsaved with
    | @shown place hopen hentry =>
      refine ⟨place, hopen, fun hdevice => absurd (.inl hentry) hdevice, fun _ => ?_, ?_⟩
      · exact ⟨String.empty_append, rfl⟩
      · simp [hentry]
    | @dropped place hopen hentry =>
      refine ⟨place, hopen, fun hdevice => absurd (.inr hentry) hdevice, ?_, fun _ => ⟨rfl, rfl⟩⟩
      simp [hentry]
    | @saved place after hopen hdevice hsaved =>
      exact ⟨place, hopen, fun _ => ⟨rfl, hsaved⟩, fun hentry => absurd (.inl hentry) hdevice,
        fun hentry => absurd (.inr hentry) hdevice⟩

/-- A program goes to the file that the output path leads to, which was there before and lies
outside the working directory. -/
theorem run_all_or_nothing_saved :
    let args := ["--name", "App", "-o../dist/./app.js", "--policy=referred", "/tmp/work/page.html"]
    let d := { Disk.ofFiles [("page.html", "<script>let n = 0;</script><p>\x7bn\x7d</p>")] with
      entries := [(["tmp", "work", "page.html"],
          .file "<script>let n = 0;</script><p>\x7bn\x7d</p>".toUTF8),
        (["tmp", "dist", "app.js"], .file "old".toUTF8)] }
    let i : Invocation := ⟨"/tmp/work/page.html", .compile, "../dist/./app.js", false, some "App",
      .referred, false⟩
    let r := runOn args d
    Invocation.ofArguments args = .ok i ∧ (∃ parts, Spelled args parts ∧ Asks parts i)
    ∧ r.status = 0 ∧ ∃ source result, d.readFile i.input = .ok source
      ∧ compile source ⟨i.input, some "App", .referred⟩ = .ok result
      ∧ r.stdout = "" ∧ Saved d "../dist/./app.js" result.code.toUTF8 r.disk := by
  intro args d i r
  have hargs : Invocation.ofArguments args = .ok i := by decide +kernel
  have hstatus : r.status = 0 := by decide +kernel
  have hplace : d.openFile "../dist/./app.js" = .ok ["tmp", "dist", "app.js"] := by decide +kernel
  have hentry : d.entryAt? ["tmp", "dist", "app.js"] = some (.file "old".toUTF8) := rfl
  have hdevice : ¬d.IsDevice ["tmp", "dist", "app.js"] := by
    rintro (h | h) <;> cases hentry.symm.trans h
  obtain ⟨hparts, -, -, hdone⟩ := run_all_or_nothing hargs d
  obtain ⟨source, c, hread, -, -, -, hcompile⟩ := hdone hstatus
  obtain ⟨result, hresult, -, hsaved⟩ := hcompile rfl
  obtain ⟨place, hopen, hfile, -⟩ := hsaved rfl
  obtain rfl := Except.ok.inj (hplace.symm.trans hopen)
  exact ⟨hargs, hparts, hstatus, source, result, hread, hresult, hfile hdevice⟩

/-- An output path that is another name of the standard output makes a run print the program; and a
file that has no room is empty behind a run that failed, though there was none before. -/
theorem delivery_to_device :
    let files := [("page.html", "<p></p>")]
    let d := { Disk.ofFiles files with room := fun _ => some 0 }
    let shown := runOn ["page.html", "-o", "/dev/stdout"] (.ofFiles files)
    let cut := runOn ["page.html"] d
    (shown.status = 0 ∧ shown.stdout ≠ "" ∧ shown.disk.content? "/dev/stdout" = none)
    ∧ cut.status = 1 ∧ d.content? "a.js" = none ∧ cut.disk.content? "a.js" = some .empty := by
  decide +kernel

end Reactive.CommandLine
