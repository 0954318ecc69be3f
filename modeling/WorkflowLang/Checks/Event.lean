/-!
# Events

A workflow starts on a webhook event, which has one of the names below, or on a
schedule, whose expression stands in parentheses and has no line feed.
-/

namespace WorkflowLang
namespace Event

def webhooks : List String :=
  ["check_run", "check_suite", "commit_comment", "create", "delete",
    "deployment", "deployment_status", "fork", "github_app_authorization",
    "gollum", "installation", "installation_repositories", "issue_comment",
    "issues", "label", "marketplace_purchase", "member", "membership",
    "milestone", "organization", "org_block", "page_build", "project_card",
    "project_column", "project", "public", "pull_request",
    "pull_request_review", "pull_request_review_comment", "push", "release",
    "repository", "repository_import", "repository_vulnerability_alert",
    "security_advisory", "status", "team", "team_add", "watch", "ping"]

/-- The text between `schedule(` and a final `)`. -/
def scheduleExpression? (event : String) : Option (List Char) :=
  match "schedule(".toList.isPrefixOf? event.toList with
  | none => none
  | some inner =>
      if inner.getLast? = some ')' then some inner.dropLast else none

/-- A schedule has an expression, which is not empty and on one line. -/
def isSchedule (event : String) : Bool :=
  match scheduleExpression? event with
  | none => false
  | some expression => !expression.isEmpty && !expression.contains '\n'

def isKnown (event : String) : Bool :=
  webhooks.contains event || isSchedule event

end Event
end WorkflowLang
