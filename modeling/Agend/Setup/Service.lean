import Mathlib.Data.List.Basic

/-! The definition of the daemon as a user service, for launchd and for systemd. -/
namespace Agend.Setup

abbrev Text := List Char

def LAUNCHD_LABEL : Text := "dev.agend.daemon".toList

inductive Manager
  | launchd
  | systemd
  deriving DecidableEq

structure ServiceSpec where
  manager : Manager
  program : Text
  home : Text
  userHome : Text
  searchPath : Text

def isControl (c : Char) : Bool := c.toNat < 32 || (127 ≤ c.toNat && c.toNat < 160)

def absolute (value : Text) : Bool :=
  value.head? = some '/' &&
    !value.any fun c => isControl c || c.toNat = 0xFFFE || c.toNat = 0xFFFF

/-- Each `c` of a text is replaced. -/
def replace (c : Char) (by' : Text) (value : Text) : Text :=
  value.flatMap fun d => if d = c then by' else [d]

def xml (value : Text) : Text :=
  replace '\'' "&apos;".toList (replace '"' "&quot;".toList (replace '>' "&gt;".toList
    (replace '<' "&lt;".toList (replace '&' "&amp;".toList value))))

def unit (value : Text) : Text :=
  '"' :: (replace '%' ['%', '%'] (replace '"' ['\\', '"']
    (replace '\\' ['\\', '\\'] value)) ++ ['"'])

namespace ServiceSpec

def launchd (spec : ServiceSpec) : Text :=
  let program := xml spec.program
  let home := xml spec.home
  let userHome := xml spec.userHome
  let path := xml spec.searchPath
  List.flatten [
    "<?xml version=\"1.0\" encoding=\"UTF-8\"?>\n".toList,
    "<plist version=\"1.0\"><dict>\n".toList,
    "<key>Label</key><string>".toList, LAUNCHD_LABEL, "</string>\n".toList,
    "<key>ProgramArguments</key><array><string>".toList, program,
    "</string><string>daemon</string></array>\n".toList,
    "<key>WorkingDirectory</key><string>".toList, home, "</string>\n".toList,
    "<key>EnvironmentVariables</key><dict>\n".toList,
    "<key>AGEND_HOME</key><string>".toList, home, "</string>\n".toList,
    "<key>HOME</key><string>".toList, userHome, "</string>\n".toList,
    "<key>PATH</key><string>".toList, path, "</string>\n".toList,
    "</dict>\n".toList,
    "<key>RunAtLoad</key><true/>\n".toList,
    "<key>KeepAlive</key><true/>\n".toList,
    "<key>AbandonProcessGroup</key><true/>\n".toList,
    "<key>ThrottleInterval</key><integer>5</integer>\n".toList,
    "<key>Umask</key><integer>63</integer>\n".toList,
    "<key>StandardOutPath</key><string>".toList, home,
    "/logs/service.stdout.log</string>\n".toList,
    "<key>StandardErrorPath</key><string>".toList, home,
    "/logs/service.stderr.log</string>\n".toList,
    "</dict></plist>\n".toList]

def systemd (spec : ServiceSpec) : Text :=
  let program := unit spec.program
  let home := replace '%' ['%', '%'] spec.home
  let agendHome := unit ("AGEND_HOME=".toList ++ spec.home)
  let userHome := unit ("HOME=".toList ++ spec.userHome)
  let path := unit ("PATH=".toList ++ spec.searchPath)
  List.flatten [
    "[Unit]\nDescription=AgEnD agent daemon\n\n".toList,
    "[Service]\nType=exec\n".toList,
    "ExecStart=".toList, ":/usr/bin/env -- ".toList, program, " daemon".toList, "\n".toList,
    "WorkingDirectory=".toList, home, "/".toList, "\n".toList,
    "Environment=".toList, agendHome, "\n".toList,
    "Environment=".toList, userHome, "\n".toList,
    "Environment=".toList, path, "\n".toList,
    "UnsetEnvironment=AGEND_INSTANCE\n".toList,
    "Restart=always\nRestartSec=5\nKillMode=process\nTimeoutStopSec=20\nUMask=0077\n\n".toList,
    "[Install]\nWantedBy=default.target\n".toList]

def render (spec : ServiceSpec) : Except String Text :=
  if [spec.program, spec.home, spec.userHome].any fun path => !absolute path then
    .error "service paths must be absolute and contain no control characters"
  else if (spec.searchPath.splitOn ':').any fun path => !absolute path then
    .error "service PATH must contain only nonempty absolute directories"
  else match spec.manager with
    | .launchd => .ok spec.launchd
    | .systemd => .ok spec.systemd

end ServiceSpec

end Agend.Setup
