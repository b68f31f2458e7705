import Dockerfile.Rule.NewerTag

/-!
What breaks the rules. Each rule has a check, which goes through the instructions of a Dockerfile
and reports its findings; `analyze` runs the checks of all rules in order.
-/

namespace Dockerfile

namespace Rule

open Text

/-! ### Stages

Their base images, and the names by which other stages copy from them.
-/

/-- The value of a FROM names no tag, or the moving one. -/
def isUnpinned (value : String) : Bool :=
  !mentions value ":" || endsWith value ":latest"

def checkUnpinnedBase (xs : List Instruction) : List Finding :=
  (xs.filter fun i => i.keyword == .fromImage && isUnpinned i.value).map fun i =>
    let image := before ':' i.value
    { rule := unpinnedBase, line := i.line
      message := s!"Base image '{i.value}' uses an unpinned version."
      explanation := some unpinnedBase.explanation
      suggestion := some s!"Pin the image to a specific version. E.g., '{image}:3.11-slim'." }

/-- The first RUN on a line below the first FROM, if that FROM starts from the empty image. -/
def runInScratch? (xs : List Instruction) : Option Instruction := do
  let base ← xs.find? (·.keyword == .fromImage)
  if lower (strip base.value) = "scratch" then
    xs.find? fun i => base.line < i.line && i.keyword == .run
  else none

def checkRunInScratch (xs : List Instruction) : List Finding :=
  (runInScratch? xs).toList.map fun i =>
    { rule := runInScratch, line := i.line
      message := "A 'RUN' instruction cannot be used after 'FROM scratch'."
      severity := "error"
      explanation := some runInScratch.explanation
      suggestion := some <| "Remove the RUN instruction or use a different base image that " ++
        "includes a shell." }

/-- The name that a FROM gives its stage: the word after `AS`. -/
def stageName? (value : String) : Option String :=
  match words value with
  | _ :: marker :: name :: _ => if upper marker = "AS" then some name else none
  | _ => none

/-- The names of all stages, wherever they start. -/
def stageNames (xs : List Instruction) : List String :=
  (xs.filter (·.keyword == .fromImage)).filterMap fun i => stageName? i.value

/-- The first `--from=` flag of a value, in any case. -/
def fromFlag? (value : String) : Option String :=
  (words value).find? fun word => startsWith (lower word) "--from="

/-- The stage that a flag names: what follows its equals sign, up to a further one. -/
def flagStage (line : Int) (flag : String) : Except Fault String :=
  if '=' ∈ flag.toList then .ok (before '=' (after '=' flag)) else .error (.noStage line)

def isCopy (i : Instruction) : Bool :=
  i.keyword == .copy || i.keyword == .add

/-- The finding on a COPY or ADD from a stage that is not among those named. -/
def unknownStageFinding (stages : List String) (i : Instruction) : Except Fault (Option Finding) :=
  match fromFlag? i.value with
  | none => .ok none
  | some flag => (flagStage i.line flag).map fun stage =>
    if stage ∈ stages then none
    else some
      { rule := unknownStage, line := i.line
        message := s!"COPY --from refers to a non-existent stage: '{stage}'."
        severity := "error"
        explanation := some unknownStage.explanation
        suggestion := some <| "Ensure the stage name is spelled correctly and defined in a " ++
          "previous 'FROM ... AS ...' instruction." }

def checkUnknownStage (xs : List Instruction) : Except Fault (List Finding) :=
  ((xs.filter isCopy).mapM (unknownStageFinding (stageNames xs))).map (·.filterMap id)

/-! ### Commands

What RUN executes while the image is built.
-/

/-- A RUN whose command holds the phrase. -/
def runs (i : Instruction) (phrase : String) : Bool :=
  i.keyword == .run && mentions i.value phrase

def checkInstallWithoutUpdate (xs : List Instruction) : List Finding :=
  (xs.filter fun i => runs i "apt-get install" && !mentions i.value "apt-get update").map fun i =>
    { rule := installWithoutUpdate, line := i.line
      message := "RUN with 'apt-get install' is missing 'apt-get update'."
      severity := "error"
      explanation := some installWithoutUpdate.explanation
      suggestion := some "Add 'apt-get update &&' before your 'apt-get install' command." }

/-- The RUNs that another RUN follows and none precedes; `afterRun` tells whether a RUN stands
before the list. -/
def runStarts (afterRun : Bool) : List Instruction → List Instruction
  | a :: b :: rest =>
    let here := if a.keyword = .run ∧ b.keyword = .run ∧ !afterRun then [a] else []
    here ++ runStarts (a.keyword == .run) (b :: rest)
  | _ => []

def checkConsecutiveRuns (xs : List Instruction) : List Finding :=
  (runStarts false xs).map fun i =>
    { rule := consecutiveRuns, line := i.line
      message := "Multiple consecutive RUN commands can be combined with '&&'."
      severity := "info"
      explanation := some consecutiveRuns.explanation
      suggestion := some "Combine this RUN instruction with the following one(s)." }

def checkUncleanedInstall (xs : List Instruction) : List Finding :=
  (xs.filter fun i =>
    runs i "apt-get install" && !mentions i.value "rm -rf /var/lib/apt/lists").map fun i =>
      { rule := uncleanedInstall, line := i.line
        message := "RUN with 'apt-get install' is missing cache cleanup."
        severity := "warning"
        explanation := some uncleanedInstall.explanation
        suggestion := some "Append '&& rm -rf /var/lib/apt/lists/*' to the RUN command." }

/-- Commands that install packages. -/
def packageInstallers : List String :=
  ["apt-get install", "apk add", "yum install"]

/-- Packages that are needed for building only. -/
def buildPackages : List String :=
  ["build-essential", "gcc", "g++", "make", "git", "vim", "nano", "curl", "wget"]

def checkUnneededPackage (xs : List Instruction) : List Finding :=
  (xs.filter fun i => packageInstallers.any (runs i)).flatMap fun i =>
    (buildPackages.filter fun package => mentions i.value (" " ++ package)).map fun package =>
      { rule := unneededPackage, line := i.line
        message := s!"Build-time package '{package}' is installed in the final image."
        severity := "info"
        explanation := some unneededPackage.explanation
        suggestion := some "Use a multi-stage build to keep the final image lean." }

/-- Commands that upgrade every package. -/
def upgradeCommands : List String :=
  ["apt-get upgrade", "apt-get dist-upgrade"]

def checkUpgrade (xs : List Instruction) : List Finding :=
  xs.filterMap fun i => (upgradeCommands.find? (runs i)).map fun command =>
    { rule := upgrade, line := i.line
      message := s!"Potentially unsafe command '{command}' found."
      severity := "warning"
      explanation := some upgrade.explanation
      suggestion := some <| "Remove the upgrade command. If you need a newer package, update " ++
        "the base image or install a specific version." }

def checkRepeatedUpdate (xs : List Instruction) : List Finding :=
  ((xs.filter (runs · "apt-get update")).drop 1).map fun i =>
    { rule := repeatedUpdate, line := i.line
      message := "Redundant 'apt-get update' command found."
      severity := "info"
      explanation := some repeatedUpdate.explanation
      suggestion := some "Consolidate your 'apt-get update' calls into a single command." }

/-! ### Files

What COPY and ADD bring into the image, and who owns it.
-/

/-- Commands that install the dependencies of an application. -/
def dependencyInstallers : List String :=
  ["pip install", "npm install", "yarn install", "bundle install"]

/-- The line of the first RUN that installs dependencies. -/
def installLine? (xs : List Instruction) : Option Int :=
  (xs.find? fun i => dependencyInstallers.any (runs i)).map (·.line)

/-- The COPYs of everything among the instructions that stand before the first one at or below the
line of the installation. The number -1 stands for no line, so an installation there is none. -/
def earlyBroadCopies (xs : List Instruction) : List Instruction :=
  match installLine? xs with
  | none => []
  | some line =>
    if line = -1 then []
    else (xs.takeWhile fun i => i.line < line).filter fun i =>
      i.keyword == .copy && startsWith (strip i.value) ". "

def checkEarlyBroadCopy (xs : List Instruction) : List Finding :=
  (earlyBroadCopies xs).map fun i =>
    { rule := earlyBroadCopy, line := i.line
      message := "A broad 'COPY . ...' is used before dependency installation."
      severity := "warning"
      explanation := some earlyBroadCopy.explanation
      suggestion := some <| "Copy only the dependency file (e.g., requirements.txt) first, run " ++
        "install, then copy the rest." }

/-- The first source of a COPY is the whole build context. -/
def copiesAll (i : Instruction) : Bool :=
  i.keyword == .copy && ((words i.value).head? == some "." || (words i.value).head? == some "./")

def checkBroadCopy (xs : List Instruction) : List Finding :=
  (xs.filter copiesAll).map fun i =>
    { rule := broadCopy, line := i.line
      message := "Broad 'COPY . .' pattern detected. This can harm layer caching."
      severity := "info"
      explanation := some broadCopy.explanation
      suggestion := some "Be more specific in your COPY instruction, e.g., 'COPY src/ /app/src'." }

def checkAddUsed (xs : List Instruction) : List Finding :=
  (xs.filter (·.keyword == .add)).map fun i =>
    { rule := addUsed, line := i.line
      message := "ADD is used. Prefer COPY for clarity and security."
      severity := "warning"
      explanation := some addUsed.explanation
      suggestion := some "Replace 'ADD' with 'COPY' if you are only copying local files." }

/-- The last USER. -/
def lastUser? (xs : List Instruction) : Option Instruction :=
  (xs.filter (·.keyword == .user)).getLast?

def checkCopyWithoutOwner (xs : List Instruction) : List Finding :=
  match lastUser? xs with
  | none => []
  | some switch =>
    let user := strip switch.value
    if user = "root" then []
    else (xs.filter fun i =>
      switch.line < i.line && isCopy i && !mentions i.value "--chown=").map fun i =>
        let name := i.keyword.name
        { rule := copyWithoutOwner, line := i.line
          message := s!"'{name}' is used without '--chown' after switching to non-root user " ++
            s!"'{user}'."
          severity := "warning"
          explanation := some copyWithoutOwner.explanation
          suggestion := some s!"Add '--chown={user}' to the {name} command." }

/-! ### The container

How a container of the image runs: its ports, health check, metadata, command, working directory,
user and environment.
-/

def checkMissingHealthcheck (xs : List Instruction) : List Finding :=
  match xs.find? (·.keyword == .expose) with
  | none => []
  | some i =>
    if xs.any (·.keyword == .healthcheck) then []
    else
      [{ rule := missingHealthcheck, line := i.line
         message := "Dockerfile exposes a port but no HEALTHCHECK is defined."
         severity := "warning"
         explanation := some missingHealthcheck.explanation
         suggestion := some "Add a HEALTHCHECK instruction to test the exposed service." }]

/-- The ports of an EXPOSE come with a protocol. -/
def hasProtocol (value : String) : Bool :=
  mentions value "/tcp" || mentions value "/udp"

def checkPortWithoutProtocol (xs : List Instruction) : List Finding :=
  (xs.filter fun i => i.keyword == .expose && !hasProtocol i.value).map fun i =>
    { rule := portWithoutProtocol, line := i.line
      message := s!"Port '{i.value}' is exposed without a /tcp or /udp protocol."
      severity := "info"
      explanation := some portWithoutProtocol.explanation
      suggestion := some s!"Specify the protocol, e.g., 'EXPOSE {i.value}/tcp'." }

def checkMissingLabel (xs : List Instruction) : List Finding :=
  if xs.any (·.keyword == .label) then []
  else
    [{ rule := missingLabel, line := 1
       message := "No LABEL instruction found. Consider adding metadata to your image."
       severity := "info"
       explanation := some missingLabel.explanation
       suggestion := some "Add a LABEL instruction, e.g., LABEL maintainer=\"you@example.com\"." }]

/-- A CMD or ENTRYPOINT that is not written as a list. -/
def isShellForm (i : Instruction) : Bool :=
  (i.keyword == .cmd || i.keyword == .entrypoint) && !startsWith (strip i.value) "["

/-- The finding on a command in shell form, which quotes the program it runs. -/
def shellFormFinding (i : Instruction) : Except Fault Finding :=
  match (words i.value).head? with
  | none => .error (.noProgram i.line)
  | some program => .ok
      { rule := shellForm, line := i.line
        message := s!"'{i.keyword.name}' is using the shell form instead of the exec form."
        severity := "info"
        explanation := some shellForm.explanation
        suggestion := some <| "Convert to the exec form, e.g., " ++
          s!"{i.keyword.name} [\"{program}\", \"...\"]" }

def checkShellForm (xs : List Instruction) : Except Fault (List Finding) :=
  (xs.filter isShellForm).mapM shellFormFinding

def checkRelativeWorkdir (xs : List Instruction) : List Finding :=
  (xs.filter fun i => i.keyword == .workdir && !startsWith (strip i.value) "/" &&
    !startsWith (strip i.value) "$").map fun i =>
      let path := strip i.value
      { rule := relativeWorkdir, line := i.line
        message := s!"WORKDIR path '{path}' is not absolute."
        severity := "info"
        explanation := some relativeWorkdir.explanation
        suggestion := some s!"Change the path to be absolute, e.g., '/{path}'." }

def checkRootUser (xs : List Instruction) : List Finding :=
  match lastUser? xs with
  | none =>
    [{ rule := rootUser, line := (xs.getLast?.map (·.line)).getD 1
       message := "No 'USER' instruction found. Container will run as root."
       severity := "warning"
       explanation := some rootUser.explanation
       suggestion := some "Add a non-root user and switch to them, e.g., 'USER myappuser'." }]
  | some i =>
    if strip i.value = "root" then
      [{ rule := rootUser, line := i.line
         message := "Container is explicitly set to run as 'root' user."
         severity := "warning"
         explanation := some rootUser.explanation
         suggestion := some "Switch to a non-root user." }]
    else []

/-- Parts of the names of variables that hold secrets. -/
def secretWords : List String :=
  ["PASSWORD", "SECRET", "TOKEN", "API_KEY", "APIKEY", "ACCESS_KEY", "SECRET_KEY", "PASSWD"]

/-- The variable that an ENV sets: the first word before the first equals sign. -/
def envKey? (value : String) : Option String :=
  (words (before '=' value)).head?

def looksSecret (key : String) : Bool :=
  secretWords.any (mentions (upper key))

def secretFinding (i : Instruction) : Except Fault (Option Finding) :=
  match envKey? i.value with
  | none => .error (.noVariable i.line)
  | some key => .ok <|
    if looksSecret key then
      some
        { rule := secretInEnv, line := i.line
          message := s!"Potential secret found in ENV variable '{key}'."
          severity := "warning"
          explanation := some secretInEnv.explanation
          suggestion := some "Use Docker secrets or build-time ARGs to handle sensitive data." }
    else none

def checkSecretInEnv (xs : List Instruction) : Except Fault (List Finding) :=
  ((xs.filter (·.keyword == .env)).mapM secretFinding).map (·.filterMap id)

/-! ### All rules -/

/-- The breaches of a rule. -/
def check (registry : Registry) (xs : List Instruction) : Rule → Except Fault (List Finding)
  | .unpinnedBase => .ok (checkUnpinnedBase xs)
  | .missingHealthcheck => .ok (checkMissingHealthcheck xs)
  | .portWithoutProtocol => .ok (checkPortWithoutProtocol xs)
  | .missingLabel => .ok (checkMissingLabel xs)
  | .runInScratch => .ok (checkRunInScratch xs)
  | .unknownStage => checkUnknownStage xs
  | .shellForm => checkShellForm xs
  | .relativeWorkdir => .ok (checkRelativeWorkdir xs)
  | .installWithoutUpdate => .ok (checkInstallWithoutUpdate xs)
  | .consecutiveRuns => .ok (checkConsecutiveRuns xs)
  | .uncleanedInstall => .ok (checkUncleanedInstall xs)
  | .earlyBroadCopy => .ok (checkEarlyBroadCopy xs)
  | .unneededPackage => .ok (checkUnneededPackage xs)
  | .upgrade => .ok (checkUpgrade xs)
  | .broadCopy => .ok (checkBroadCopy xs)
  | .repeatedUpdate => .ok (checkRepeatedUpdate xs)
  | .addUsed => .ok (checkAddUsed xs)
  | .rootUser => .ok (checkRootUser xs)
  | .secretInEnv => checkSecretInEnv xs
  | .copyWithoutOwner => .ok (checkCopyWithoutOwner xs)
  | .newerTag => checkNewerTag registry xs

end Rule

/-- The breaches of all rules, rule by rule. -/
def analyze (registry : Registry) (xs : List Instruction) : Except Fault (List Finding) :=
  (Rule.all.mapM (Rule.check registry xs)).map (·.flatten)

end Dockerfile
