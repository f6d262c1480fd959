import BbsServer.Db
import BbsServer.LineBuf

/-!
# Files

`file_p.c`: listing, the two prepare functions, the transfer steps and the
description. `s` is the session, `w` the world before the call.
-/

namespace BbsServer

open CStr

def clearFileFromSess (w : World) (s : Session) : World × Session :=
  match s.file with
  | none => (w, s)
  | some _ => (w.closeFd s, { s with fd := none, file := none })

/-! ## Listing -/

structure FileListArgs where
  page : Int
  limit : Int
  name : Option Bytes

/-- The ownership and permission test: `false` skips the item. -/
def fileListed (uname : Bytes) (it : FlItem) : Bool :=
  strncmpZero it.owner uname uname.length || it.permissions != 0

def itemH (it : FlItem) : Bytes :=
  ascii "[" ++ it.name ++ ascii "] " ++ decimal it.size ++ ascii " " ++ it.owner

/-- `"%s %s\n"` with the newlines of the description replaced by `'\a'`. -/
def fullStr (it : FlItem) : Bytes :=
  itemH it ++ ascii " " ++ (it.description.map fun c => if c = nl then 7 else c) ++ [nl]

def pageInfo (page limit count fullCount : Int) : Bytes :=
  let pagesCount := fullCount.tdiv limit
  let pagesCount := if pagesCount = 0 then 1 else pagesCount
  let pagesCount := if fullCount > limit ∧ pagesCount.tmod limit ≠ 0 then toInt (pagesCount + 1) else pagesCount
  ascii ":END: PAGE " ++ decimal (page % 2 ^ 32).toNat ++ ascii "/" ++ decimalInt pagesCount ++ ascii " COUNT: " ++
    decimalInt count ++ ascii "/" ++ decimalInt (toInt (fullCount - toInt (toInt (page - 1) * limit))) ++ [nl]

def fileListQuery (args : FileListArgs) : GetFiles :=
  { searchStr := args.name.getD [], limit := args.limit, offset := toInt (args.limit * toInt (args.page - 1)) }

def fileListTexts (uname : Bytes) (args : FileListArgs) (answer : List FlItem × Int × Int) : List Bytes :=
  (answer.1.filter (fileListed uname)).map fullStr ++ [pageInfo args.page args.limit answer.2.1 answer.2.2]

def fileListText (uname : Bytes) (args : FileListArgs) (answer : List FlItem × Int × Int) : Bytes :=
  (fileListTexts uname args answer).flatten

def fileListWith (dbGetFilesData : GetFiles → M (List FlItem × Int × Int)) (w : World) (s : Session)
    (args : FileListArgs) :
    M World := do
  if args.limit = 0 then .error (.fault .divByZero)
  else
    let answer ← dbGetFilesData (fileListQuery args)
    if answer.1 = [] then .ok (writeText w s (pageInfo args.page args.limit answer.2.1 answer.2.2))
    else
      let uname ← deref s.uname
      if (answer.1.filter (fileListed uname)).all (fun it => (itemH it).length < 256) then
        .ok (writeTexts w s (fileListTexts uname args answer))
      else .error (.fault .overflow)

abbrev fileList (P : Platform) (ans : Answers) (w : World) :=
  fileListWith ((Database.tables P).dbGetFilesData ans w) w

/-! ## Preparing a transfer -/

def sendFoundWith (lseek : World → Bytes → Nat) (ans : Answers) (w : World) (s : Session) (sf : SFile) :
    M (Int × World × Session) := do
  let path := storagePath sf.hash
  let sf := { sf with path := some path }
  match ans.opened with
  | none =>
    let w := writeText w s (ascii "Can't open file with id = " ++ decimal (sf.id % 2 ^ 32).toNat ++ [nl])
    .ok (-2, w, { s with file := some sf })
  | some d =>
    let w ← w.openRead s path d
    let fsize := lseek w path
    if sf.size ≠ fsize then
      let w := writeText w s
        (ascii "File with id = " ++ decimal (sf.id % 2 ^ 32).toNat ++ ascii " exists, but seems to be damaged\n")
      .ok (-3, w, { s with file := some sf })
    else
      let sf := { sf with rest := fsize, packageRest := packageSize }
      .ok (0, w, { s with file := some sf, fd := some d })

abbrev sendFound := sendFoundWith fun w path => ((w.disk path).getD []).length

def fileSendPrepareWith (send : SendString) (dbGetFile : GetFile → M (Option SFile))
    (found : SFile → M (Int × World × Session))
    (w : World) (s : Session) (line : Bytes) : M (Int × World × Session) := do
  match strchr line 91 with
  | none =>
    let w ← send w s (ascii "Error: can't find starting character \"[\" for the file name")
    let (w, s) := clearFileFromSess w s
    .ok (-4, w, s)
  | some b =>
    let nameBegin := b + 1
    match strrchr line 93 with
    | none =>
      let w ← send w s (ascii "Error: can't find ending character \"]\" for the file name")
      let (w, s) := clearFileFromSess w s
      .ok (-5, w, s)
    | some nameEnd =>
      if nameEnd = nameBegin then
        let w ← send w s (ascii "File name should not be empty")
        let (w, s) := clearFileFromSess w s
        .ok (-6, w, s)
      -- `strncpy` with a negative length, or past `args.name`
      else if nameEnd < nameBegin ∨ fileNameLen ≤ nameEnd - nameBegin then .error (.fault .overflow)
      else
        let name := (line.drop nameBegin).take (nameEnd - nameBegin)
        match ← dbGetFile { id := 0, userId := 0, name } with
        | none => .ok (-1, w, { s with file := none })
        | some sf => found sf

abbrev fileSendPrepare (ans : Answers) (w : World) (s : Session) :=
  fileSendPrepareWith sessionSendString (fun arg => .ok (dbGetFile ans w arg)) (sendFound ans w s) w s

def errFsv : Bytes := ascii "Can't create a file."

/-- What the name loop of `file_receive_prepare` ends with: `mkdir` failed, `open`
failed, or the new file. -/
inductive Probed
  | noDir
  | noFile
  | created (hash : BitVec 32) (path : Bytes) (d : Nat)

/-- The name loop, one round for each probe: `chdir`, `stat`, `mkdir`, `chdir`, `open`. -/
def probeNames (w : World) (s : Session) (name : Bytes) (size : Nat) : Int → List Probe → M (Probed × World)
  | _, [] => .error .refused
  | seed, p :: probes =>
    let hash := murmurHash3X86_32 name seed
    let path := storagePath hash
    if !p.dirExists && !p.mkdir then .ok (.noDir, { w with cwd := .storage })
    else
      let w := { w with cwd := .work }
      match p.opened with
      | .eexist => if (w.disk path).isSome then probeNames w s name size (toInt (seed + 1)) probes else .error .refused
      | .failed => .ok (.noFile, w)
      | .fd d => do
        let w ← w.create s path d size
        .ok (.created hash path d, w)

def scanSizePerm (ans : Answers) (s : Bytes) : Nat × Int :=
  match scanLong s with
  | none => (0, ans.perm)
  | some (fsize, s) =>
    match scanInt s with
    | none => (sizeT fsize, ans.perm)
    | some (perm, _) => (sizeT fsize, perm)

def fileReceivePrepareWith (send : SendString) (ans : Answers) (w : World) (s : Session)
    (line : Bytes) : M (Int × World × Session) := do
  match strchr line 34 with
  | none =>
    let w ← send w s (ascii "Error: can't find starting character \" for the file name")
    let (w, s) := clearFileFromSess w s
    .ok (-5, w, s)
  | some b =>
    let nameBegin := line.drop (b + 1)
    match strrchr nameBegin 34 with
    | none =>
      let w ← send w s (ascii "Error: can't find ending character \" for the file name")
      let (w, s) := clearFileFromSess w s
      .ok (-6, w, s)
    | some nameLen =>
      if nameLen = 0 then
        let w ← send w s (ascii "File name should not be empty")
        let (w, s) := clearFileFromSess w s
        .ok (-7, w, s)
      else
        let (fsize, perm) := scanSizePerm ans (nameBegin.drop (nameLen + 1))
        let name := nameBegin.take nameLen
        let file : SFile :=
          { name := some name, path := some [], description := none, permissions := toChar perm, size := 0, rest := 0,
            packageRest := 0, hash := 0, id := 0, ownerId := 0 }
        let s := { s with file := some file }
        if name.length > ans.nameMax then
          let w ← send w s (ascii "file name is too long\n")
          let (w, s) := clearFileFromSess w { s with state := .opWait }
          .ok (-1, w, s)
        else if fsize > ans.availableSpace then
          let w ← send w s
            (ascii "There is no space for such size! (" ++ decimalInt (wrap 64 fsize) ++ ascii ")\n")
          let (w, s) := clearFileFromSess w s
          .ok (-2, w, s)
        else
          let (probed, w) ← probeNames w s name fsize fileHashSeed ans.probes
          match probed with
          | .noDir =>
            let w ← send w s errFsv
            let (w, s) := clearFileFromSess w s
            .ok (-4, w, s)
          | .noFile =>
            let w ← send w s errFsv
            let (w, s) := clearFileFromSess w s
            .ok (-3, w, { s with file := none })
          | .created hash path d =>
            let file := { file with hash, path := some path, size := fsize, rest := fsize }
            .ok (0, writeText w s (ascii "accept"), { s with file := some file, fd := some d })

abbrev fileReceivePrepare := fileReceivePrepareWith sessionSendString

/-! ## Transfer steps -/

/-- The byte at an offset from `buf`: read by the last `read()`, or whatever is there. -/
def bufAt (ans : Answers) (bs : Bytes) (k : Nat) : UInt8 := bs.getD k (ans.mem k)

def bufSlice (ans : Answers) (bs : Bytes) (off len : Nat) : Bytes :=
  (List.range len).map fun k => bufAt ans bs (off + k)

def readLength : Option Bytes → Int
  | none => -1
  | some bs => bs.length

def fileDownload (ans : Answers) (w : World) (s : Session) : M (World × Session) := do
  let f ← deref s.file
  if f.packageRest = 0 then .ok (w, { s with state := .opDownloadWaitConfirmPackage })
  else
    let readLen :=
      if f.packageRest < inBufSize then f.packageRest
      else if f.rest < inBufSize then f.rest
      else inBufSize
    let bs := ans.read.getD []
    let rlen := readLength ans.read
    if readLen < bs.length then .error .refused
    else if rlen = 0 then
      if f.rest ≠ 0 then
        let (w, s) := clearFileFromSess w s
        .ok (w, { s with state := .opWait })
      else .ok (w, { s with state := .opWait })
    else
      match ans.write1.accepted (sizeT rlen) with
      | none =>
        let (w, s) := clearFileFromSess w { s with state := .err }
        .ok (w, s)
      | some n =>
        let w := w.log (.wrote s.sd (bufSlice ans bs 0 n))
        let f := { f with rest := subSize f.rest (sizeT rlen), packageRest := subSize f.packageRest (sizeT rlen) }
        if f.rest = 0 then
          let (w, s) := clearFileFromSess w { s with file := some f }
          .ok (w, { s with state := .opWait })
        else if f.packageRest = 0 then .ok (w, { s with file := some f, state := .opDownloadWaitConfirmPackage })
        else .ok (w, { s with file := some f })

/-- The failure branch of `file_upload_write`. The format has a `%s` and no argument. -/
def uploadWriteFailedWith (send : SendString) (ans : Answers) (w : World) (s : Session)
    (f : SFile) : M (World × Session) := do
  let w ← send w s (ascii "There is an error sending the file name \"" ++ ans.junk ++ ascii "\"\n")
  let w := w.closeFd s
  let path ← deref f.path
  let (w, s) := clearFileFromSess (w.unlink path) s
  .ok (w, { s with state := .opWait })

def uploadRemoved (w : World) (s : Session) (f : SFile) : M (World × Session) := do
  let path ← deref f.path
  let (w, s) := clearFileFromSess (w.unlink path) s
  .ok (w, { s with state := .opWait })

def uploadFinWith (send : SendString) (w : World) (s : Session) (f : SFile) : M (World × Session) :=
  if f.rest = 0 then do
    let w ← send w s (ascii "finished\n")
    .ok (w, { s with file := some f, state := .opUploadDescription })
  else .ok (w, { s with file := some f })

def bufLE (ans : Answers) (bs : Bytes) (off len : Nat) : Nat := leNat (bufSlice ans bs off len)

def sigContinue : Nat := 0
def sigCancel : Nat := 1
def fpdSize : Nat := 16

def fileUploadWith (send : SendString) (ans : Answers) (w : World) (s : Session) : M (World × Session) := do
  let f ← deref s.file
  let bs := ans.read.getD []
  let rlen := readLength ans.read
  if inBufSize < bs.length then .error .refused
  else if rlen = 0 then
    if f.rest ≠ 0 then uploadRemoved w s f
    else .ok (w, { s with state := .opWait })
  else
    let w := w.log (.received s.sd bs)
    if f.packageRest < sizeT rlen then
      match ans.write1.accepted f.packageRest with
      | none => uploadWriteFailedWith send ans w s f
      | some n =>
        let w := w.append s.fd (bufSlice ans bs 0 n)
        let rlen := toInt (rlen - f.packageRest)
        let f := { f with rest := subSize f.rest f.packageRest }
        if rlen = 0 then .ok (w, { s with file := some f })
        else if f.rest = 0 then uploadFinWith send w s f
        else
          -- `(s_file_pd_t *)(buf + sess->file->package_rest)`: signal at 0, package_size at 8
          let signal := bufLE ans bs f.packageRest 4
          let fpdPackageSize := bufLE ans bs (f.packageRest + 8) 8
          if signal = sigContinue then
            let rlen := toInt (rlen - fpdSize)
            if rlen > 0 then
              let rlen := if sizeT rlen > f.rest then toInt f.rest else rlen
              match ans.write2.accepted (sizeT rlen) with
              | none => uploadWriteFailedWith send ans w s f
              | some n =>
                let w := w.append s.fd (bufSlice ans bs (f.packageRest + fpdSize) n)
                uploadFinWith send w s
                  { f with rest := subSize f.rest (sizeT rlen), packageRest := sizeT (fpdPackageSize - rlen) }
            else uploadFinWith send w s { f with packageRest := sizeT (fpdPackageSize - rlen) }
          else if signal = sigCancel then uploadRemoved w s f
          else uploadFinWith send w s f
    else
      match ans.write1.accepted (sizeT rlen) with
      | none => uploadWriteFailedWith send ans w s f
      | some n =>
        let w := w.append s.fd (bufSlice ans bs 0 n)
        uploadFinWith send w s
          { f with rest := subSize f.rest (sizeT rlen), packageRest := subSize f.packageRest (sizeT rlen) }

abbrev uploadWriteFailed := uploadWriteFailedWith sessionSendString

abbrev uploadFin := uploadFinWith sessionSendString

abbrev fileUpload := fileUploadWith sessionSendString

/-! ## Description -/

def endMarker : Bytes := ascii ":END:"

/-- The loop of `file_upload_description`: a round with a line adds it, a round without
takes the next one from the buffer. -/
def descriptionLoop (ans : Answers) : Nat → Session → SFile → Option Bytes → M (Bool × Session)
  | 0, s, f, _ => .ok (false, { s with file := some f })
  | fuel + 1, s, f, some line =>
    let description := f.description.getD [] ++ line
    if (strstr line endMarker).isSome then
      -- `description[strlen(description) - 6] = 0`
      if description.length < 6 then .error (.fault .overflow)
      else .ok (true, { s with file := some { f with description := some (description.take (description.length - 6)) } })
    else descriptionLoop ans fuel s { f with description := some description } none
  | fuel + 1, s, f, none =>
    if s.buf = [] then .ok (false, { s with file := some f })
    else if f.description = none then .error (.fault .nullDeref)
    else
      let (line, s) := queryExtractFromBuf ans s
      descriptionLoop ans fuel s f line

/-- `file_upload_description`: whether `:END:` was there. The buffer shrinks every
second round, so the rounds are enough. -/
def fileUploadDescription (ans : Answers) (s : Session) (line : Bytes) : M (Bool × Session) := do
  let f ← deref s.file
  descriptionLoop ans (2 * s.buf.length + 2) s f (some line)

/-- More rounds than the buffer needs change nothing. -/
theorem descriptionLoop_fuel {ans : Answers} : ∀ {n m : Nat} {s : Session} {f : SFile} {line : Option Bytes},
    2 * s.buf.length + (if line.isSome then 2 else 1) ≤ n → 2 * s.buf.length + (if line.isSome then 2 else 1) ≤ m →
    descriptionLoop ans n s f line = descriptionLoop ans m s f line
  | 0, _, _, _, line, hn, _ => by cases line <;> simp at hn
  | _ + 1, 0, _, _, line, _, hm => by cases line <;> simp at hm
  | n + 1, m + 1, s, f, some line, hn, hm => by
    simp only [Option.isSome_some, if_true] at hn hm
    simp only [descriptionLoop]
    have hfuel : 2 * s.buf.length + 1 ≤ n ∧ 2 * s.buf.length + 1 ≤ m := by omega
    rw [descriptionLoop_fuel (m := m) (by simpa using hfuel.1) (by simpa using hfuel.2)]
  | n + 1, m + 1, s, f, none, hn, hm => by
    simp only [descriptionLoop]
    by_cases hb : s.buf = []
    · rw [if_pos hb, if_pos hb]
    rw [if_neg hb, if_neg hb]
    obtain ⟨line, b, -, hq, hlt⟩ := queryExtractFromBuf_ok ans hb
    simp only [Option.isSome_none, Bool.false_eq_true, if_false] at hn hm
    rw [hq]
    simp only
    rw [descriptionLoop_fuel (m := m) (by simp; omega) (by simp; omega)]

end BbsServer
