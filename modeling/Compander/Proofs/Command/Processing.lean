import Compander.Command.Running
import Compander.Files.Folder
import Compander.Proofs.Buffer.Interleaving
import Compander.Proofs.Session.Render
import Compander.Proofs.Wave.Container

/-!
# Processing files

The command that processes a file cuts its planes into blocks itself, by a loop that goes from
place to place in the planes, where a session is given the blocks one after another. Both loops
push the same blocks, so the command puts into the other file what comes out when the planes go
through a new session whole, and this does not depend on the size of the blocks:

* `Wave.length_of_decode` — the planes of a recording are equally long;
* `Command.pushFrom_eq`, `Command.renderFile_eq` — the loop of the command is that of a session;
* `Command.readSource`, `Command.sayLevels` — what the command does before and after;
* `Command.processFile_eq` — the command, with the planes rendered in one step;
* `renderPlanes_eq_stream` — which planes these are.

A command says lines as it goes and may end in trouble at any of its steps. The equation for it
is one of programs, so all of that is in it: the lines before the trouble, and which trouble.
-/

namespace Compander

open Command (Run Trouble)
open Command.Run
open Device (followerFor shapeAhead)

/-! ## Recordings -/

/-- The planes of a recording in a file are equally long, since they come from whole
frames. -/
theorem Wave.length_of_decode {bytes : List UInt8} {source : Recording}
    (h : decode bytes = .ok source) :
    ∀ plane ∈ source.planes, plane.length = Session.frames source.planes := by
  obtain ⟨frames, hframes⟩ := Container.exists_length_of_decode h
  cases hplanes : source.planes with
  | nil => nofun
  | cons first planes =>
    rw [hplanes] at hframes
    exact fun plane hplane =>
      (hframes plane hplane).trans (hframes first (List.mem_cons_self ..)).symm

namespace Command

/-! ## The loop -/

section pushFrom

variable {planes : List (List Float32)} {frames blockSize start : Nat}

/-- A slice that stops after a number of samples or with the planes is a block of what is left
of them, stamped with where it begins. -/
theorem slice_eq (hplanes : ∀ plane ∈ planes, plane.length = frames) :
    slice (planes.map List.toArray) start (min (start + blockSize) frames) =
      ⟨(planes.map (·.drop start)).map (·.take blockSize), some start⟩ := by
  rw [slice, List.map_map, List.map_map]
  refine congrArg (Buffer.mk · _) (List.map_congr_left fun plane hplane => ?_)
  rw [Function.comp_apply, Function.comp_apply, List.extract_toArray, List.toList_toArray,
    List.extract_eq_take_drop]
  refine List.take_eq_take_iff.mpr ?_
  rw [List.length_drop, hplanes plane hplane]
  omega

/-- There is one block more than what is left after it is cut into. -/
theorem blocks_eq_succ (hlt : start < frames) (hpos : 0 < blockSize) :
    (frames - start + blockSize - 1) / blockSize =
      (frames - min (start + blockSize) frames + blockSize - 1) / blockSize + 1 := by
  rcases Nat.le_total (start + blockSize) frames with hle | hge
  · have hmore : frames - start + blockSize - 1 =
        frames - (start + blockSize) + blockSize - 1 + blockSize := by omega
    rw [Nat.min_eq_left hle, hmore, Nat.add_div_right _ hpos]
  · have hlast : (frames - frames + blockSize - 1) / blockSize = 0 := Nat.div_eq_of_lt (by omega)
    rw [Nat.min_eq_right hge, hlast]
    exact Nat.div_eq_of_lt_le (by omega) (by omega)

/-- What is left of the planes is cut into a slice, and the rest of it after that. -/
theorem cut_eq_slice_cons (hplanes : ∀ plane ∈ planes, plane.length = frames)
    (hlt : start < frames) (hpos : 0 < blockSize) :
    let stop := min (start + blockSize) frames
    Session.cut blockSize ((frames - start + blockSize - 1) / blockSize) start
        (planes.map (·.drop start)) =
      slice (planes.map List.toArray) start stop ::
        Session.cut blockSize ((frames - stop + blockSize - 1) / blockSize) stop
          (planes.map (·.drop stop)) := by
  intro stop
  rw [blocks_eq_succ hlt hpos, Session.cut, slice_eq hplanes]
  refine congrArg (List.cons _) ?_
  rcases Nat.le_total (start + blockSize) frames with hle | hge
  · have hstop : stop = start + blockSize := Nat.min_eq_left hle
    rw [hstop, Nat.min_eq_left hle, List.map_map]
    refine congrArg _ (List.map_congr_left fun plane _ => ?_)
    rw [Function.comp_apply, List.drop_drop]
  · -- the slice was the last one, and nothing is left wherever it began
    have hstop : stop = frames := Nat.min_eq_right hge
    have hlast : (frames - stop + blockSize - 1) / blockSize = 0 := Nat.div_eq_of_lt (by omega)
    rw [hlast, Session.cut, Session.cut]

/-- **The loop.** From a place in the planes on, the command pushes the blocks that the rest of the
planes is cut into. -/
theorem pushFrom_eq (hplanes : ∀ plane ∈ planes, plane.length = frames) (hpos : 0 < blockSize)
    (s : Session) (tape : Tape) :
    pushFrom (planes.map List.toArray) frames blockSize start s tape =
      match Session.pushAll (Session.cut blockSize ((frames - start + blockSize - 1) / blockSize)
        start (planes.map (·.drop start))) s tape with
      | (.error refusal, _, _) => .error refusal
      | (.ok (), s, tape) => .ok (s, tape) := by
  fun_induction pushFrom (planes.map List.toArray) frames blockSize start s tape with
  | case1 start s tape hmore stop refusal s' tape' hpush =>
    rw [cut_eq_slice_cons hplanes hmore.1 hpos, Session.pushAll]
    simp only [stop] at hpush
    simp only [hpush]
  | case2 start s tape hmore stop count s' tape' hpush ih =>
    simp only [stop] at hpush ih ⊢
    rw [ih, cut_eq_slice_cons hplanes hmore.1 hpos, Session.pushAll]
    simp only [hpush]
  | case3 start s tape hdone =>
    have hnone : (frames - start + blockSize - 1) / blockSize = 0 := Nat.div_eq_of_lt (by omega)
    rw [hnone, Session.cut, Session.pushAll]

/-- **The command and a session.** Planes come out of the loop of the command as they do out of a
session that is given all their blocks. -/
theorem renderFile_eq (hplanes : ∀ plane ∈ planes, plane.length = Session.frames planes)
    (hpos : 0 < blockSize) (s : Session) :
    renderFile s planes blockSize = s.render planes blockSize := by
  rw [renderFile, pushFrom_eq hplanes hpos, Session.render]
  have hwhole : planes.map (·.drop 0) = planes := by
    simp only [List.drop_zero, List.map_id']
  rw [Nat.sub_zero, hwhole]
  simp only
  rcases Session.pushAll (Session.cut blockSize _ 0 planes) s (Tape.blank planes.length) with
    ⟨_ | _, s', tape⟩ <;> rfl

end pushFrom

variable {m : Type → Type} [Monad m] [Files m]

/-- What goes on with a recording in a file may count on planes that are equally long. -/
theorem load_congr [LawfulMonad m] {β : Type} {path : String}
    {next next' : Wave.Recording → Run m β}
    (h : ∀ source : Wave.Recording,
      (∀ plane ∈ source.planes, plane.length = Session.frames source.planes) →
        next source = next' source) :
    call Trouble.ofAudio (Wave.load path) >>= next =
      call Trouble.ofAudio (Wave.load path) >>= next' := by
  simp only [call, Wave.load, bind_assoc, liftM_bind, liftM_pure, pure_bind]
  refine bind_congr fun answer => ?_
  cases hdecode : (answer.mapError fun fault => AudioError.wave (.file fault)).bind Wave.decode with
  | error error =>
    apply ExceptT.ext
    simp [orTrouble]
  | ok source =>
    obtain ⟨bytes, -, hdecode⟩ := bind_eq_ok_iff.mp hdecode
    exact (pure_bind ..).trans
      ((h source (Wave.length_of_decode hdecode)).trans (pure_bind ..).symm)

/-! ## Processing -/

/-- What processing a file says of parameters and planes before it goes through them. -/
def saySource (p : Parameters) (source : Wave.Recording) : Run m Unit := do
  let frames := Session.frames source.planes
  let rate := source.shape.rate
  say (s!"  {source.planes.length} channel(s), {frames} frames, {rate} Hz, "
    ++ Decimal.fixed 2 (Float.ofNat frames / Float.ofNat rate) ++ "s")
  say ("Settings: " ++ p.toText)

/-- The first steps of processing a file: the parameters, and what is in the file. -/
def readSource (input : String) (selection : Selection) (blockSize bits : Nat) :
    Run m (Parameters × Wave.Recording) := do
  let p ← selection.resolve
  if blockSize = 0 then give "--block-size must be at least 1"
  if bits ∉ [16, 24, 32] then
    give s!"Unsupported bit depth {bits} (use 16, 24, or 32)"
  say s!"Reading {input}..."
  let source ← call Trouble.ofAudio (Wave.load input)
  saySource p source
  return (p, source)

/-- What processing a file says of the planes that it goes through, and of those that come out. -/
def sayLevels (p : Parameters) (source : Wave.Recording) (planes : List (List Float32)) :
    Run m Unit := do
  let latency := Decibel.samplesIn p.delay source.shape.rate
  if latency ≠ 0 then
    say s!"  lookahead {latency} samples"
  say "\nStats:"
  say ("  Input:  " ++ Loudness.sentence source.planes.flatten)
  say ("  Output: " ++ Loudness.sentence planes.flatten)

omit [Files m] in
/-- Nothing comes after a program has given up, whatever would have been next. -/
theorem give_bind [LawfulMonad m] {α β : Type} (message : String) (next : α → Run m β) :
    give message >>= next = give message := by
  apply ExceptT.ext
  simp [give]

omit [Files m] in
theorem orTrouble_ok {ε α : Type} (trouble : ε → Trouble) (a : α) :
    (orTrouble trouble (.ok a) : Run m α) = pure a :=
  rfl

omit [Files m] in
/-- Nor does anything after it has met an error, which becomes its trouble. -/
theorem orTrouble_error_bind [LawfulMonad m] {ε α β : Type} (trouble : ε → Trouble) (error : ε)
    (next : α → Run m β) : orTrouble trouble (.error error) >>= next = throw (trouble error) := by
  apply ExceptT.ext
  simp [orTrouble]

/-- A session that starts renders equally long planes, as a new session does with all of them. -/
theorem exists_render_of_start [Memory] {p : Parameters} {planes : List (List Float32)}
    {rate blockSize : Nat} {s : Session}
    (hplanes : ∀ plane ∈ planes, plane.length = Session.frames planes) (hpos : 0 < blockSize)
    (hstart : Session.start p (.perSample planes.length rate) = .ok s) :
    ∃ tape, s.render planes blockSize = .ok tape ∧
      renderPlanes p planes rate blockSize = .ok tape.planes ∧
      s.device.latency = Decibel.samplesIn p.delay rate := by
  obtain ⟨d, hd, rfl⟩ := Session.start_eq_ok_iff.mp hstart
  have hnew := Device.isNew_of_setUp hd
  have hrender := Session.render_of_isNew hnew hplanes hpos
  cases htape : (Session.on d).render planes blockSize with
  | error refusal =>
    rw [htape] at hrender
    cases hrender
  | ok tape =>
    rw [htape] at hrender
    exact ⟨tape, rfl, (renderPlanes_of_setUp hplanes hd blockSize).trans hrender.symm,
      hnew.latency_eq⟩

/-- **The command** is its first steps, the planes in one step of rendering, and its last
steps. What it says of the device is said after rendering here and before it there, which
comes to the same, as rendering says nothing and meets no trouble once a session has
started. -/
theorem processFile_eq [Memory] [LawfulMonad m] (input output : String) (selection : Selection)
    (blockSize bits : Nat) :
    (processFile input output selection blockSize bits : Run m Unit) = (do
      let (p, source) ← readSource input selection blockSize bits
      let planes ←
        orTrouble Trouble.ofRefusal (renderPlanes p source.planes source.shape.rate blockSize)
      sayLevels p source planes
      say s!"\nWriting {output}..."
      call Trouble.ofAudio (Wave.save output planes { source.shape with bits })
      say "Done!") := by
  rw [processFile, readSource]
  simp only [bind_assoc]
  refine bind_congr fun p => ?_
  rcases Nat.eq_zero_or_pos blockSize with rfl | hpos
  · simp only [if_true, give_bind]
  simp only [hpos.ne', if_false]
  by_cases hbits : bits ∈ [16, 24, 32]
  case neg => simp only [hbits, not_false_eq_true, if_true, give_bind]
  simp only [hbits, not_true_eq_false, if_false, bind_assoc]
  refine bind_congr fun _ => load_congr fun source hplanes => ?_
  simp only [saySource, bind_assoc, pure_bind]
  refine bind_congr fun _ => bind_congr fun _ => ?_
  cases hstart : Session.start p (.perSample source.planes.length source.shape.rate) with
  | error error =>
    -- planes that are equally long are refused by a new session for the same reason
    have hrefused : renderPlanes p source.planes source.shape.rate blockSize =
        .error (.error error) := by
      rw [renderPlanes, checkLengths_eq_ok_iff.mpr hplanes, hstart]
    rw [hrefused, orTrouble_error_bind, orTrouble_error_bind]
    rfl
  | ok s =>
    obtain ⟨tape, hrender, hwhole, hlatency⟩ := exists_render_of_start hplanes hpos hstart
    rw [← renderFile_eq hplanes hpos s] at hrender
    rw [hwhole]
    simp only [orTrouble_ok, pure_bind, hrender, hlatency, sayLevels]
    split
    · simp only [bind_assoc]
    · simp only [bind_assoc]

end Command

/-! ## Rendering -/

/-- **Whole planes.** The answer for some planes does not depend on the size of the blocks. Planes
that differ in length are refused, and so are those that no device is set up for. All others come
out as long as they went in, and as one device makes them that is given all samples in a single
buffer and then finished. The command that processes a file puts into the other file what comes out
for the planes that it has read. -/
theorem renderPlanes_eq_stream [Memory] (p : Parameters) (planes : List (List Float32))
    (rate : Nat) :
    (∀ blockSize blockSize',
      renderPlanes p planes rate blockSize = renderPlanes p planes rate blockSize') ∧
    (∀ blockSize refusal, renderPlanes p planes rate blockSize = .error refusal →
      (∃ error, checkLengths planes (Session.frames planes) = .error error ∧
        refusal = .error error) ∨
      checkLengths planes (Session.frames planes) = .ok () ∧
        ∃ error, Device.setUp (N := Float32) p (.perSample planes.length rate) = .error error ∧
          refusal = .error (.setup error)) ∧
    (∀ blockSize out, renderPlanes p planes rate blockSize = .ok out →
      out.map List.length = planes.map List.length ∧
      ∃ d, Device.setUp p (.perSample planes.length rate) = .ok d ∧
        ∀ stamp, ∃ outs, d.stream [⟨planes, stamp⟩] = .ok outs ∧
          out = (List.range planes.length).map (Buffer.track outs)) ∧
    ∀ {m : Type → Type} [Monad m] [LawfulMonad m] [Files m] (input output : String)
      (selection : Selection) (blockSize bits : Nat),
      (Command.processFile input output selection blockSize bits : Run m Unit) = (do
        let (p, source) ← Command.readSource input selection blockSize bits
        let planes ←
          orTrouble Trouble.ofRefusal (renderPlanes p source.planes source.shape.rate blockSize)
        Command.sayLevels p source planes
        say s!"\nWriting {output}..."
        call Trouble.ofAudio (Wave.save output planes { source.shape with bits })
        say "Done!") := by
  rcases hchecked : checkLengths planes (Session.frames planes) with error | ⟨⟨⟩⟩
  · have hrender (blockSize : Nat) : renderPlanes p planes rate blockSize = .error (.error error) :=
      renderPlanes_of_ragged hchecked blockSize
    refine ⟨fun size size' => (hrender size).trans (hrender size').symm, ?_, ?_,
      Command.processFile_eq⟩
    · intro blockSize refusal h
      exact .inl ⟨error, rfl, Except.error.inj (h.symm.trans (hrender blockSize))⟩
    · intro blockSize out h
      cases h.symm.trans (hrender blockSize)
  have hplanes := checkLengths_eq_ok_iff.mp hchecked
  cases hsetUp : Device.setUp (N := Float32) p (.perSample planes.length rate) with
  | error error =>
    have hrender := renderPlanes_of_setUp_eq_error hplanes hsetUp
    refine ⟨fun size size' => (hrender size).trans (hrender size').symm, ?_, ?_,
      Command.processFile_eq⟩
    · intro blockSize refusal h
      exact .inr ⟨rfl, error, rfl, Except.error.inj (h.symm.trans (hrender blockSize))⟩
    · intro blockSize out h
      cases h.symm.trans (hrender blockSize)
  | ok d =>
    have hrender := renderPlanes_of_setUp hplanes hsetUp
    refine ⟨fun size size' => (hrender size).trans (hrender size').symm, ?_, ?_,
      Command.processFile_eq⟩
    · intro blockSize refusal h
      cases h.symm.trans (hrender blockSize)
    · intro blockSize out h
      obtain rfl := Except.ok.inj (h.symm.trans (hrender blockSize))
      refine ⟨map_length_shapeAhead .., d, rfl, fun stamp => ?_⟩
      obtain ⟨outs, hstream, hout⟩ := exists_stream_of_setUp hplanes hsetUp stamp
      exact ⟨outs, hstream, hout.symm⟩

/-- Three samples through a lookahead of two, in two blocks and in one, and the same with files. -/
theorem renderPlanes_eq_stream_of_three_samples :
    let p : Parameters := { attacks := [0.0], decays := [0.0], delay := 0.25 }
    ∃ out d outs, renderPlanes p [[0.5, 0.25, -1.0]] 8 2 = .ok out ∧
      renderPlanes p [[0.5, 0.25, -1.0]] 8 0 = .ok out ∧ out.map List.length = [3] ∧
      Device.setUp p (.perSample 1 8) = .ok d ∧
      d.stream [⟨[[0.5, 0.25, -1.0]], none⟩] = .ok outs ∧ out = [Buffer.track outs 0] ∧
      (Command.processFile "in.wav" "out.wav" ⟨.defaults, []⟩ 2 16 : Run (StateM Folder) Unit) = (do
        let (p, source) ← Command.readSource "in.wav" ⟨.defaults, []⟩ 2 16
        let planes ← orTrouble Trouble.ofRefusal (renderPlanes p source.planes source.shape.rate 2)
        Command.sayLevels p source planes
        say "\nWriting out.wav..."
        call Trouble.ofAudio (Wave.save "out.wav" planes { source.shape with bits := 16 })
        say "Done!") := by
  intro p
  obtain ⟨out, hout⟩ :
      ∃ out, (renderPlanes p [[0.5, 0.25, -1.0]] 8 2).toOption = some out :=
    Option.isSome_iff_exists.mp (by decide +kernel)
  have hout := Device.eq_ok_of_toOption hout
  obtain ⟨hsize, -, hwhole, hfile⟩ := renderPlanes_eq_stream p [[0.5, 0.25, -1.0]] 8
  obtain ⟨hlengths, d, hd, hstream⟩ := hwhole 2 out hout
  obtain ⟨outs, houts, htracks⟩ := hstream none
  exact ⟨out, d, outs, hout, (hsize 0 2).trans hout, hlengths, hd, houts, htracks,
    hfile "in.wav" "out.wav" ⟨.defaults, []⟩ 2 16⟩

end Compander
